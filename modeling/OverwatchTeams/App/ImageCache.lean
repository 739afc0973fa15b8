import OverwatchTeams.App.ImageLoading

/-!
# The image cache

Whether the cache of `UIImageView.downloaded` can be told from no cache at all, when
the server answers each URL always the same way and a call is over, its closure
included, before the next one. The image of a view cannot: what the cache holds is
what the server would send (`Coherent`). The content mode can, since a call that
finds its image in the cache leaves it alone, where a download sets it. So a view
ends as without the cache exactly when the last call on it, if the cache answers it,
finds the view in the mode it asks for (`cached_eq_uncached_iff`).
-/

namespace OverwatchTeams

/-- What the completion handler of a data task gets. -/
structure DownloadAnswer (D : Type) where
  data : Option D
  response : Option URLResponse
  error : Option URLError

variable {V D I : Type}

/-! ## Calls that run to their end -/

namespace UIImageView

/-- `downloaded(from link:contentMode:)` without the lookup in the cache. -/
def downloadedUncached (platform : ImagePlatform D I) (link : String) (mode : ContentMode)
    (v : UIImageView I) : UIImageView I × Option URL :=
  match platform.url link with
  | none => (v, none)
  | some url => ({ v with contentMode := mode }, some url)

def downloadedImage (platform : ImagePlatform D I) (server : URL → DownloadAnswer D) (url : URL) :
    Option (UIImage I) :=
  let answer := server url
  (imageOfResponse platform answer.data answer.response answer.error).map fun content =>
    { content, source := url }

end UIImageView

namespace ImageCache

def evict (keys : List String) (imageCache : ImageCache I) : ImageCache I :=
  fun key => if key ∈ keys then none else imageCache key

end ImageCache

structure ImageViews (V I : Type) where
  views : V → UIImageView I
  imageCache : ImageCache I

inductive ImageStep (V : Type) where
  /-- A call with its download and its closure; `evicted` leaves the cache in between. -/
  | downloaded (view : V) (link : String) (mode : ContentMode) (evicted : List String)
  | evict (keys : List String)

/-- What a call does at once: the view it leaves, and the URL of the data task. -/
abbrev Downloader (I : Type) : Type :=
  ImageCache I → String → ContentMode → UIImageView I → UIImageView I × Option URL

def cached (platform : ImagePlatform D I) : Downloader I :=
  fun imageCache link mode v => v.downloaded platform imageCache link mode

def uncached (platform : ImagePlatform D I) : Downloader I :=
  fun _ link mode v => v.downloadedUncached platform link mode

namespace ImageViews

variable [DecidableEq V]

/-- The data task of a call on `view`, up to the closure it puts on the main queue. -/
def finish (platform : ImagePlatform D I) (server : URL → DownloadAnswer D) (view : V)
    (task : Option URL) (s : ImageViews V I) : ImageViews V I :=
  match task with
  | none => s
  | some url =>
    match UIImageView.downloadedImage platform server url with
    | none => s
    | some image =>
      { views := Function.update s.views view { s.views view with image := some image }
        imageCache := Function.update s.imageCache url.absoluteString (some image) }

def step (platform : ImagePlatform D I) (server : URL → DownloadAnswer D)
    (download : Downloader I) (s : ImageViews V I) : ImageStep V → ImageViews V I
  | .downloaded view link mode evicted =>
    let (v, task) := download s.imageCache link mode (s.views view)
    finish platform server view task
      { views := Function.update s.views view v, imageCache := s.imageCache.evict evicted }
  | .evict keys => { s with imageCache := s.imageCache.evict keys }

def run (platform : ImagePlatform D I) (server : URL → DownloadAnswer D)
    (download : Downloader I) (views : V → UIImageView I) (steps : List (ImageStep V)) :
    ImageViews V I :=
  steps.foldl (step platform server download) { views, imageCache := fun _ => none }

end ImageViews

/-! ## One step -/

namespace ImageCache

variable {platform : ImagePlatform D I} {server : URL → DownloadAnswer D}

def Coherent (platform : ImagePlatform D I) (server : URL → DownloadAnswer D)
    (imageCache : ImageCache I) : Prop :=
  ∀ key image, imageCache key = some image →
    UIImageView.downloadedImage platform server ⟨key⟩ = some image

def Hit (platform : ImagePlatform D I) (imageCache : ImageCache I) (link : String) : Prop :=
  ∃ url, platform.url link = some url ∧ (imageCache url.absoluteString).isSome

theorem Coherent.evict {imageCache : ImageCache I} (h : imageCache.Coherent platform server)
    (keys : List String) : (imageCache.evict keys).Coherent platform server := by
  intro key image hkey
  unfold ImageCache.evict at hkey
  split at hkey
  · cases hkey
  · exact h key image hkey

end ImageCache

namespace ImageStep

def Calls (platform : ImagePlatform D I) (v : V) : ImageStep V → Prop
  | .downloaded view link _ _ => view = v ∧ (platform.url link).isSome
  | .evict _ => False

theorem calls_iff {platform : ImagePlatform D I} {v : V} {l : ImageStep V} :
    l.Calls platform v ↔ ∃ link mode evicted url,
      l = .downloaded v link mode evicted ∧ platform.url link = some url := by
  constructor
  · intro h
    cases l with
    | evict keys => exact h.elim
    | downloaded view link mode evicted =>
      obtain ⟨rfl, hsome⟩ := h
      obtain ⟨url, hurl⟩ := Option.isSome_iff_exists.1 hsome
      exact ⟨link, mode, evicted, url, rfl, hurl⟩
  · rintro ⟨link, mode, evicted, url, rfl, hurl⟩
    exact ⟨rfl, by rw [hurl]; rfl⟩

def Asks (mode : ContentMode) : ImageStep V → Prop
  | .downloaded _ _ mode' _ => mode' = mode
  | .evict _ => True

end ImageStep

namespace ImageViews

/-- A call that the cache answers finds its view in the mode it asks for. -/
def KeepsMode (platform : ImagePlatform D I) (s : ImageViews V I) : ImageStep V → Prop
  | .downloaded view link mode _ =>
    s.imageCache.Hit platform link → (s.views view).contentMode = mode
  | .evict _ => True

variable [DecidableEq V] {platform : ImagePlatform D I} {server : URL → DownloadAnswer D}
  {download : Downloader I} {s : ImageViews V I}

theorem finish_views_self (view : V) (task : Option URL) :
    (s.finish platform server view task).views view =
      { s.views view with
        image := (task.bind (UIImageView.downloadedImage platform server)).or
          (s.views view).image } := by
  cases task with
  | none => rfl
  | some url =>
    cases himage : UIImageView.downloadedImage platform server url with
    | none => simp [finish, himage]
    | some image => simp [finish, himage]

theorem finish_views_other {view other : V} (h : other ≠ view) (task : Option URL) :
    (s.finish platform server view task).views other = s.views other := by
  unfold finish
  split
  · rfl
  · split
    · rfl
    · exact Function.update_of_ne h ..

theorem finish_coherent (h : s.imageCache.Coherent platform server) (view : V)
    (task : Option URL) :
    (s.finish platform server view task).imageCache.Coherent platform server := by
  unfold finish
  split
  · exact h
  · next url =>
    split
    · exact h
    · next image himage =>
      refine Keyed.forall_update h fun image' himage' => ?_
      cases himage'
      exact himage

theorem step_coherent (h : s.imageCache.Coherent platform server) (l : ImageStep V) :
    (s.step platform server download l).imageCache.Coherent platform server := by
  cases l with
  | downloaded view link mode evicted => exact finish_coherent (h.evict evicted) _ _
  | evict keys => exact h.evict keys

/-- What a call leaves of its view, with any downloader: the mode is the downloader's,
and an image that the download brings replaces the one there. -/
theorem step_views_self (view : V) (link : String) (mode : ContentMode) (evicted : List String) :
    (s.step platform server download (.downloaded view link mode evicted)).views view =
      let (v, task) := download s.imageCache link mode (s.views view)
      { v with image := (task.bind (UIImageView.downloadedImage platform server)).or v.image } := by
  simp only [step, finish_views_self, Function.update_self]

theorem step_views_other {view other : V} (h : other ≠ view) (link : String) (mode : ContentMode)
    (evicted : List String) :
    (s.step platform server download (.downloaded view link mode evicted)).views other =
      s.views other := by
  simp only [step]
  rw [finish_views_other h]
  exact Function.update_of_ne h ..

theorem step_uncached_self {url : URL} {link : String} (hurl : platform.url link = some url)
    (view : V) (mode : ContentMode) (evicted : List String) :
    (s.step platform server (uncached platform) (.downloaded view link mode evicted)).views view =
      { image := (UIImageView.downloadedImage platform server url).or (s.views view).image
        contentMode := mode } := by
  rw [step_views_self]
  simp only [uncached, UIImageView.downloadedUncached, hurl]
  rfl

theorem step_cached_self (hs : s.imageCache.Coherent platform server) {url : URL} {link : String}
    (hurl : platform.url link = some url) (view : V) (mode : ContentMode)
    (evicted : List String) :
    (s.step platform server (cached platform) (.downloaded view link mode evicted)).views view =
      { image := (UIImageView.downloadedImage platform server url).or (s.views view).image
        contentMode := if (s.imageCache url.absoluteString).isSome then (s.views view).contentMode
          else mode } := by
  rw [step_views_self]
  simp only [cached, UIImageView.downloaded, hurl, UIImageView.downloadedURL]
  cases hhit : s.imageCache url.absoluteString with
  | none => rfl
  | some image =>
    have himage : UIImageView.downloadedImage platform server url = some image := hs _ _ hhit
    rw [himage]
    rfl

def Guarded (platform : ImagePlatform D I) (download : Downloader I) : Prop :=
  ∀ imageCache link mode v, platform.url link = none → download imageCache link mode v = (v, none)

theorem guarded_cached : Guarded platform (cached (I := I) platform) := by
  intro imageCache link mode v hurl
  simp only [cached, UIImageView.downloaded, hurl]

theorem guarded_uncached : Guarded platform (uncached (I := I) platform) := by
  intro imageCache link mode v hurl
  simp only [uncached, UIImageView.downloadedUncached, hurl]

theorem step_views_of_not_calls (hd : Guarded platform download) {l : ImageStep V} {v : V}
    (hl : ¬ l.Calls platform v) : (s.step platform server download l).views v = s.views v := by
  cases l with
  | evict keys => rfl
  | downloaded view link mode evicted =>
    by_cases hview : v = view
    · subst hview
      have hurl : platform.url link = none := by
        cases h : platform.url link with
        | none => rfl
        | some url => exact absurd (ImageStep.calls_iff.2 ⟨link, mode, evicted, url, rfl, h⟩) hl
      rw [step_views_self, hd _ _ _ _ hurl]
      rfl
    · exact step_views_other hview link mode evicted

/-! ## Both at once -/

/-- What a run with the cache keeps in step with one without: its cache tells the
truth, and every view has the same image. -/
structure Alike (platform : ImagePlatform D I) (server : URL → DownloadAnswer D)
    (s t : ImageViews V I) : Prop where
  coherent : s.imageCache.Coherent platform server
  image : ∀ v, (s.views v).image = (t.views v).image

theorem step_alike {t : ImageViews V I} (h : Alike platform server s t) (l : ImageStep V) :
    Alike platform server (s.step platform server (cached platform) l)
      (t.step platform server (uncached platform) l) := by
  refine ⟨step_coherent h.coherent l, fun v => ?_⟩
  by_cases hl : l.Calls platform v
  · obtain ⟨link, mode, evicted, url, rfl, hurl⟩ := ImageStep.calls_iff.1 hl
    rw [step_cached_self h.coherent hurl, step_uncached_self hurl, h.image]
  · rw [step_views_of_not_calls guarded_cached hl, step_views_of_not_calls guarded_uncached hl]
    exact h.image v

theorem step_views_eq_iff {t : ImageViews V I} (h : Alike platform server s t) {l : ImageStep V}
    {v : V} (hl : l.Calls platform v) :
    (s.step platform server (cached platform) l).views v =
        (t.step platform server (uncached platform) l).views v ↔
      s.KeepsMode platform l := by
  obtain ⟨link, mode, evicted, url, rfl, hurl⟩ := ImageStep.calls_iff.1 hl
  rw [step_cached_self h.coherent hurl, step_uncached_self hurl, h.image]
  simp only [UIImageView.mk.injEq, true_and, KeepsMode, ImageCache.Hit, hurl]
  by_cases hhit : (s.imageCache url.absoluteString).isSome
  · simp [hhit]
  · simp [hhit]

section Runs

variable (platform server) (views : V → UIImageView I) (steps : List (ImageStep V))

omit [DecidableEq V] in
theorem start_alike : Alike platform server (I := I) { views, imageCache := fun _ => none }
    { views, imageCache := fun _ => none } :=
  ⟨nofun, fun _ => rfl⟩

/-- **The images never tell.** After any steps every view has the image it would have
without the cache. -/
theorem run_image_eq (v : V) :
    ((run platform server (cached platform) views steps).views v).image =
      ((run platform server (uncached platform) views steps).views v).image := by
  have halike : Alike platform server (run platform server (cached platform) views steps)
      (run platform server (uncached platform) views steps) :=
    List.foldl_rel (start_alike platform server views) fun l _ _ _ h => step_alike h l
  exact halike.image v

theorem run_views_eq_iff (v : V) :
    (run platform server (cached platform) views steps).views v =
        (run platform server (uncached platform) views steps).views v ↔
      ∀ before call, Transition.Last (ImageStep.Calls platform v) steps before call →
        (run platform server (cached platform) views before).KeepsMode platform call := by
  refine Transition.agree_iff_last (A := fun s t : ImageViews V I => s.views v = t.views v)
    (fun s t l h => step_alike h l) (fun s t l hl => ?_) (fun s t l h hl => step_views_eq_iff h hl)
    (start_alike platform server views) rfl steps
  rw [step_views_of_not_calls guarded_cached hl, step_views_of_not_calls guarded_uncached hl]

/-- **What the cache shows of itself.** Every view ends as without the cache, exactly
when for each view the last call on it with a URL, if the cache answers it, finds the
view in the mode it asks for. -/
theorem cached_eq_uncached_iff :
    (∀ v, (run platform server (cached platform) views steps).views v =
        (run platform server (uncached platform) views steps).views v) ↔
      ∀ v before call, Transition.Last (ImageStep.Calls platform v) steps before call →
        (run platform server (cached platform) views before).KeepsMode platform call :=
  forall_congr' fun v => run_views_eq_iff platform server views steps v

/-- Two views, the second in the mode UIKit gives a new one, and one logo for both:
the second call is a hit and the mode it asks for is lost. -/
theorem hit_loses_mode :
    ¬ ∀ (V D I : Type) (_ : DecidableEq V) (platform : ImagePlatform D I)
      (server : URL → DownloadAnswer D) (views : V → UIImageView I) (steps : List (ImageStep V))
      (v : V), (run platform server (cached platform) views steps).views v =
        (run platform server (uncached platform) views steps).views v := by
  intro h
  have hmode := congrArg UIImageView.contentMode <|
    h Bool Unit Unit inferInstance Gallery.anyImage
      (fun _ => ⟨some (), some ⟨some 200, some "image/png"⟩, none⟩)
      (fun second => ⟨none, if second then .scaleToFill else .scaleAspectFit⟩)
      [.downloaded false "dal.png" .scaleAspectFit [],
        .downloaded true "dal.png" .scaleAspectFit []] true
  exact absurd hmode (by decide)

end Runs

/-! ## One mode for all -/

omit [DecidableEq V] in
theorem downloaded_contentMode {mode : ContentMode} {v : UIImageView I}
    (h : v.contentMode = mode) (imageCache : ImageCache I) (link : String) :
    (v.downloaded platform imageCache link mode).1.contentMode = mode := by
  unfold UIImageView.downloaded
  split
  · exact h
  · unfold UIImageView.downloadedURL
    split
    · exact h
    · rfl

theorem step_contentMode {mode : ContentMode} {l : ImageStep V}
    (hs : ∀ v, (s.views v).contentMode = mode) (hl : l.Asks mode) (v : V) :
    ((s.step platform server (cached platform) l).views v).contentMode = mode := by
  cases l with
  | evict keys => exact hs v
  | downloaded view link mode' evicted =>
    obtain rfl : mode' = mode := hl
    by_cases hview : v = view
    · subst hview
      rw [step_views_self]
      exact downloaded_contentMode (hs v) _ _
    · rw [step_views_other hview]
      exact hs v

/-- **With one mode the cache does not show.** When all views start in one mode and all
calls ask for it, as the logo views of the cells and of the details do with
`scaleAspectFit`, every view ends as without the cache. -/
theorem run_views_eq_of_one_mode {views : V → UIImageView I} {steps : List (ImageStep V)}
    {mode : ContentMode} (hviews : ∀ v, (views v).contentMode = mode)
    (hsteps : ∀ l ∈ steps, l.Asks mode) (v : V) :
    (run platform server (cached platform) views steps).views v =
      (run platform server (uncached platform) views steps).views v := by
  rw [run_views_eq_iff]
  rintro before call ⟨after, rfl, -, -⟩
  have hmodes : ∀ v, ((run platform server (cached platform) views before).views v).contentMode =
      mode :=
    List.foldlRecOn (motive := fun s : ImageViews V I => ∀ v, (s.views v).contentMode = mode)
      before _ hviews fun s hs l hl => step_contentMode hs (hsteps l (List.mem_append_left _ hl))
  have hcall : call.Asks mode := hsteps call (by simp)
  cases call with
  | evict keys => trivial
  | downloaded view link mode' evicted =>
    intro _
    rw [hmodes view]
    exact hcall.symm

end ImageViews

end OverwatchTeams
