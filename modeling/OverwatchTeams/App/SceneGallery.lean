import OverwatchTeams.App.Scene

/-!
# The gallery of a scene

The cells of a scene and its details screens make up a `Gallery`. A details screen is
a cell that is configured once, with the row of its team, when it is pushed
(`gallery`). Each step of a scene is a step of its gallery, or leaves it alone
(`step_gallery`), so that a run of the app is a run of a gallery (`run_gallery`) and
what holds of galleries holds in the app: in all of it, logos never mix exactly when
the closures that set them arrive on time (`logos_match_iff`).
-/

namespace OverwatchTeams

open Combine TeamsPresenterImp

variable {ρ V D I : Type}

def TeamDetailsViewImp.asCell (view : TeamDetailsViewImp I) : TeamCell I where
  logoImageView := view.logoImageView
  nameLabel := view.nameLabel
  abbreviatedNameLabel := view.abbreviatedNameLabel
  accessibilityIdentifier := view.abbreviatedNameLabel.map fun name => "teamCell" ++ name

def rowViewModel (team : TeamModel) : TeamCell.ViewModel :=
  { logoAddress := team.logoAddress, name := team.name, abbreviatedName := team.abbreviatedName }

namespace Scene

def logo (s : Scene ρ V I) : LogoOwner V → Option (UIImage I)
  | .cell cell => (s.cells cell).logoImageView.image
  | .details position =>
    s.details[position]?.bind fun c => c.teamDetailsView.logoImageView.image

/-- The cell of an image view. A details screen that has not been pushed is a fresh one. -/
def galleryCell (s : Scene ρ V I) : LogoOwner V → TeamCell I
  | .cell cell => s.cells cell
  | .details position => s.details[position]?.elim .init fun c => c.teamDetailsView.asCell

theorem logo_galleryCell (s : Scene ρ V I) (owner : LogoOwner V) :
    (s.galleryCell owner).logoImageView.image = s.logo owner := by
  cases owner with
  | cell cell => rfl
  | details position =>
    simp only [galleryCell, logo]
    cases s.details[position]? <;> rfl

variable [DecidableEq V]

/-- The link that an image view was given last: that of a cell's row, or that of a
details screen's team. -/
def link (s : Scene ρ V I) : LogoOwner V → Option String
  | .cell cell => (s.row cell).map TeamCell.ViewModel.logoAddress
  | .details position => s.teams.opened[position]?.map TeamModel.logoAddress

def gallery (s : Scene ρ V I) : Gallery (LogoOwner V) I where
  cells := s.galleryCell
  imageCache := s.imageCache
  inFlight := s.inFlight
  mainQueue := s.images
  ready
    | .cell cell => s.ready cell
    | .details position => decide (s.details.length ≤ position)
  links := s.link

/-- The steps of the gallery that a step of the scene is. -/
def galleryLabels (s : Scene ρ V I) : SceneLabel V D → List (GalleryLabel (LogoOwner V) D)
  | .teams l =>
    (selected s.teams l).map fun team =>
      .configure (.details s.details.length) (rowViewModel team)
  | .cellForRow cell row =>
    (s.teams.view.cellsViewModels[row]?).toList.map fun viewModel =>
      .configure (.cell cell) viewModel
  | .prepareForReuse cell => [.prepareForReuse (.cell cell)]
  | .back => []
  | .respond position data response error => [.respond position data response error]
  | .setImage => [.execute]
  | .evict key => [.evict key]

omit [DecidableEq V] in
theorem length_galleryLabels (s : Scene ρ V I) (l : SceneLabel V D) :
    (s.galleryLabels l).length ≤ 1 := by
  cases l with
  | teams l =>
    rw [galleryLabels, List.length_map]
    unfold selected
    split
    · exact Option.length_toList_le
    · exact Nat.zero_le _
    · exact Nat.zero_le _
    · exact Nat.zero_le _
  | cellForRow cell row =>
    rw [galleryLabels, List.length_map]
    exact Option.length_toList_le
  | prepareForReuse | respond | setImage | evict => exact Nat.le_refl _
  | back => exact Nat.zero_le _

/-! ## Image views that exist -/

def Has (s : Scene ρ V I) : LogoOwner V → Prop
  | .cell _ => True
  | .details position => position < s.details.length

/-- Data tasks and closures are for image views that exist, and there is a details screen
for each team that was opened. -/
structure Owned (s : Scene ρ V I) : Prop where
  inFlight : ∀ d ∈ s.inFlight, s.Has d.cell
  queue : ∀ c ∈ s.images, s.Has c.cell
  details : s.details.length = s.teams.opened.length

omit [DecidableEq V] in
theorem Has.mono {s t : Scene ρ V I} {owner : LogoOwner V} (h : s.Has owner)
    (hlength : s.details.length ≤ t.details.length) : t.Has owner := by
  cases owner with
  | cell cell => trivial
  | details position =>
    unfold Has at h ⊢
    omega

section Step

variable {store : TeamStore ρ} {database : ρ}
  {service : Publisher Executor (List TeamNetworkModel) NetworkPlataformError}
  {platform : ImagePlatform D I} {s t : Scene ρ V I} {l : SceneLabel V D}

theorem details_setImage (owner : LogoOwner V) (image : UIImage I) :
    (Scene.setImage owner image s).details.length = s.details.length := by
  cases owner with
  | cell cell => rfl
  | details position => exact List.length_modify ..

omit [DecidableEq V] in
theorem has_of_mem_append {inFlight : List (Download (LogoOwner V))} {owner : LogoOwner V}
    {task : Option URL} (h : ∀ d ∈ inFlight, t.Has d.cell) (howner : t.Has owner) :
    ∀ d ∈ inFlight ++ (task.map fun url => (⟨owner, url⟩ : Download (LogoOwner V))).toList,
      t.Has d.cell := by
  intro d hd
  rcases List.mem_append.1 hd with hd | hd
  · exact h d hd
  · obtain ⟨url, -, rfl⟩ := Option.map_eq_some_iff.1 (Option.mem_toList.1 hd)
    exact howner

theorem owned_init : Owned (scene (V := V) store database service platform).init where
  inFlight := nofun
  queue := nofun
  details := by
    show 0 = (teamsScreen store database service).init.opened.length
    rw [Screen.init_eq]
    rfl

theorem Owned.setImage (h : s.Owned) (owner : LogoOwner V) (image : UIImage I) :
    (Scene.setImage owner image s).Owned := by
  have hlength := details_setImage (s := s) owner image
  cases owner with
  | cell cell => exact ⟨h.inFlight, h.queue, h.details⟩
  | details position =>
    have hle := Nat.le_of_eq hlength.symm
    refine ⟨fun d hd => (h.inFlight d hd).mono hle, fun c hc => (h.queue c hc).mono hle, ?_⟩
    rw [setImage_teams, ← h.details, hlength]

theorem Owned.next (h : s.Owned) (hn : Next store service platform s l t) : t.Owned := by
  cases hn with
  | teams l teams hstep hopened => exact ⟨h.inFlight, h.queue, hopened ▸ h.details⟩
  | select row team teams hstep hopened =>
    have hlength : s.details.length ≤
        (TeamsRouterImp.teamSelected platform team { s with teams }).details.length := by
      simp [TeamsRouterImp.teamSelected]
    refine ⟨has_of_mem_append (fun d hd => (h.inFlight d hd).mono hlength) ?_,
      fun c hc => (h.queue c hc).mono hlength, ?_⟩
    · simp [TeamsRouterImp.teamSelected, Has]
    · show (s.details ++ [_]).length = teams.opened.length
      rw [hopened, List.length_append, List.length_append, h.details]
      rfl
  | cellForRow cell row viewModel =>
    exact ⟨has_of_mem_append h.inFlight trivial, h.queue, h.details⟩
  | prepareForReuse | back | evict => exact ⟨h.inFlight, h.queue, h.details⟩
  | respond position data response error d hget =>
    have herase : ∀ d' ∈ s.inFlight.eraseIdx position, s.Has d'.cell := fun d' hd' =>
      h.inFlight d' (List.mem_of_mem_eraseIdx hd')
    unfold respond
    split
    · exact ⟨herase, h.queue, h.details⟩
    · refine ⟨herase, fun c hc => ?_, h.details⟩
      rcases List.mem_append.1 hc with hc | hc
      · exact h.queue c hc
      · rw [List.mem_singleton.1 hc]
        exact h.inFlight d (List.mem_of_getElem? hget)
  | setImage c q hq =>
    refine Owned.setImage ?_ c.cell c.image
    exact ⟨h.inFlight, fun c' hc' => h.queue c' (by rw [hq]; exact .tail _ hc'), h.details⟩

/-! ## Each step is a step of the gallery, or none -/

theorem getElem?_concat {α : Type} (as : List α) (a : α) (position : Nat) :
    (as ++ [a])[position]? = if position = as.length then some a else as[position]? := by
  rcases Nat.lt_trichotomy position as.length with hlt | rfl | hgt
  · rw [List.getElem?_append_left hlt, if_neg (by omega)]
  · rw [List.getElem?_concat_length, if_pos rfl]
  · rw [List.getElem?_eq_none (by rw [List.length_append, List.length_singleton]; omega),
      if_neg (by omega), List.getElem?_eq_none (by omega)]

theorem gallery_teamSelected (h : s.Owned) (team : TeamModel) (teams : Screen ρ)
    (hopened : teams.opened = s.teams.opened ++ [team]) :
    s.gallery.configure platform (.details s.details.length) (rowViewModel team) =
      (TeamsRouterImp.teamSelected platform team { s with teams }).gallery := by
  have hfresh : s.gallery.cells (.details s.details.length) = .init := by
    simp [gallery, galleryCell]
  apply Gallery.ext
  · funext owner
    simp only [Gallery.configure, hfresh, Function.update_apply]
    cases owner with
    | cell cell => rfl
    | details position =>
      simp only [gallery, galleryCell, TeamsRouterImp.teamSelected, getElem?_concat,
        LogoOwner.details.injEq]
      split <;> rfl
  · rfl
  · simp only [Gallery.configure, hfresh]
    rfl
  · rfl
  · funext owner
    simp only [Gallery.configure, hfresh, Function.update_apply]
    cases owner with
    | cell cell => rfl
    | details position =>
      simp only [gallery, TeamsRouterImp.teamSelected, LogoOwner.details.injEq, List.length_append,
        List.length_singleton]
      split <;> simp <;> omega
  · funext owner
    simp only [Gallery.configure, hfresh, Function.update_apply]
    cases owner with
    | cell cell => rfl
    | details position =>
      simp only [gallery, link, TeamsRouterImp.teamSelected, LogoOwner.details.injEq, hopened,
        getElem?_concat, h.details]
      split <;> rfl

theorem gallery_cellForRow (cell : V) (viewModel : TeamCell.ViewModel) :
    s.gallery.configure platform (.cell cell) viewModel =
      (s.cellForRow platform cell viewModel).gallery := by
  apply Gallery.ext
  · funext owner
    simp only [Gallery.configure, Function.update_apply]
    cases owner with
    | cell other =>
      simp only [gallery, galleryCell, Scene.cellForRow, Function.update_apply,
        LogoOwner.cell.injEq]
    | details position => rfl
  · rfl
  · rfl
  · rfl
  · funext owner
    simp only [Gallery.configure, Function.update_apply]
    cases owner with
    | cell other =>
      simp only [gallery, Scene.cellForRow, Function.update_apply, LogoOwner.cell.injEq]
    | details position => rfl
  · funext owner
    simp only [Gallery.configure, Function.update_apply]
    cases owner with
    | cell other =>
      simp only [gallery, link, row, Scene.cellForRow, row_concat, LogoOwner.cell.injEq]
      split <;> rfl
    | details position => rfl

theorem gallery_prepareForReuse (cell : V) :
    s.gallery.prepareForReuse (.cell cell) = (s.prepareForReuse cell).gallery := by
  apply Gallery.ext
  · funext owner
    simp only [Gallery.prepareForReuse, Function.update_apply]
    cases owner with
    | cell other =>
      simp only [gallery, galleryCell, Scene.prepareForReuse, Function.update_apply,
        LogoOwner.cell.injEq]
    | details position => rfl
  · rfl
  · rfl
  · rfl
  · funext owner
    simp only [Gallery.prepareForReuse, Function.update_apply]
    cases owner with
    | cell other =>
      simp only [gallery, Scene.prepareForReuse, Function.update_apply, LogoOwner.cell.injEq]
    | details position => rfl
  · funext owner
    cases owner <;> rfl

theorem gallery_respond (d : Download (LogoOwner V)) (data : Option D)
    (response : Option URLResponse) (error : Option URLError) :
    s.gallery.respond platform d data response error =
      (respond platform d data response error s).gallery := by
  unfold Gallery.respond respond
  cases UIImageView.imageOfResponse platform data response error with
  | none => rfl
  | some content => rfl

theorem gallery_runClosure {c : ImageClosure (LogoOwner V) I} (h : s.Has c.cell) :
    s.gallery.runClosure c = (runClosure c s).gallery := by
  obtain ⟨owner, url, image⟩ := c
  cases owner with
  | cell cell =>
    apply Gallery.ext
    · funext owner
      simp only [Gallery.runClosure, Function.update_apply]
      cases owner with
      | cell other =>
        simp only [gallery, galleryCell, runClosure, setImage, Function.update_apply,
          LogoOwner.cell.injEq]
      | details position => rfl
    · rfl
    · rfl
    · rfl
    · funext owner
      cases owner <;> rfl
    · funext owner
      cases owner <;> rfl
  | details position =>
    have hlt : position < s.details.length := h
    apply Gallery.ext
    · funext owner
      simp only [Gallery.runClosure, Function.update_apply]
      cases owner with
      | cell other => rfl
      | details other =>
        by_cases heq : other = position
        · subst heq
          simp [gallery, galleryCell, runClosure, setImage, hlt, TeamDetailsViewImp.asCell]
        · simp [gallery, galleryCell, runClosure, setImage, heq, List.getElem?_modify_ne,
            Ne.symm heq]
    · rfl
    · rfl
    · rfl
    · funext owner
      cases owner with
      | cell other => rfl
      | details other => simp [Gallery.runClosure, gallery, runClosure, setImage]
    · funext owner
      cases owner <;> rfl

/-- **Each step of a scene is a step of its gallery, or none.** -/
theorem step_gallery (h : s.Owned) (ht : s.step store service platform l = some t) :
    (galleryRuns platform).run s.gallery (s.galleryLabels l) = some t.gallery := by
  cases next_of_step ht with
  | teams l teams hstep hopened =>
    have hselected := screen_step_opened hstep
    rw [hopened, List.self_eq_append_right] at hselected
    have hgallery : s.gallery = gallery { s with teams } := by
      apply Gallery.ext <;> try rfl
      funext owner
      cases owner with
      | cell cell => rfl
      | details position => simp only [gallery, link, hopened]
    rw [galleryLabels, hselected, hgallery]
    rfl
  | select row team teams hstep hopened =>
    have hselected := screen_step_opened hstep
    rw [hopened, List.append_cancel_left_eq] at hselected
    rw [galleryLabels, ← hselected, ← gallery_teamSelected h team teams hopened]
    have hready : s.gallery.ready (.details s.details.length) = true := by simp [gallery]
    simp [Transition.System.run, galleryRuns, Gallery.step, hready]
  | cellForRow cell row viewModel hready hrow =>
    have hready' : s.gallery.ready (.cell cell) = true := hready
    rw [galleryLabels, hrow, ← gallery_cellForRow]
    simp [Transition.System.run, galleryRuns, Gallery.step, hready']
  | prepareForReuse cell => exact congrArg some (gallery_prepareForReuse cell)
  | back => rfl
  | respond position data response error d hget =>
    have hget' : s.gallery.inFlight[position]? = some d := hget
    rw [← gallery_respond]
    simp [galleryLabels, Transition.System.run, galleryRuns, Gallery.step, hget']
    rfl
  | setImage c q hq =>
    have hq' : s.gallery.mainQueue = c :: q := hq
    have hhas : Has { s with images := q } c.cell :=
      h.queue c (by rw [hq]; exact List.mem_cons_self)
    rw [← gallery_runClosure hhas]
    simp [galleryLabels, Transition.System.run, galleryRuns, Gallery.step, hq']
    rfl
  | evict key => rfl

structure Sound (s : Scene ρ V I) : Prop extends Owned s where
  gallery : s.gallery.Sound

theorem sound_init : Sound (scene (V := V) store database service platform).init where
  toOwned := owned_init
  gallery := ⟨nofun, nofun⟩

theorem Sound.step (h : s.Sound) (ht : s.step store service platform l = some t) : t.Sound where
  toOwned := h.toOwned.next (next_of_step ht)
  gallery := Transition.System.run_invariant (M := galleryRuns platform) (P := Gallery.Sound)
    (fun _ _ _ hg hstep => Gallery.step_sound hg hstep) h.gallery (step_gallery h.toOwned ht)

theorem gallery_init :
    (scene (V := V) store database service platform).init.gallery = .init := by
  have hopened : (teamsScreen store database service).init.opened = [] := by
    rw [Screen.init_eq]
  apply Gallery.ext
  · funext owner
    cases owner <;> rfl
  · rfl
  · rfl
  · rfl
  · funext owner
    cases owner <;> rfl
  · funext owner
    cases owner with
    | cell cell => rfl
    | details position =>
      show (teamsScreen store database service).init.opened[position]?.map _ = none
      rw [hopened]
      rfl

/-- **The image views of the app run as a gallery.** -/
theorem run_gallery {ls : List (SceneLabel V D)}
    (h : (scene store database service platform).run
      (scene store database service platform).init ls = some s) :
    s.Sound ∧ ∃ ks : List (GalleryLabel (LogoOwner V) D),
      (galleryRuns platform).run .init ks = some s.gallery :=
  Transition.System.run_invariant
    (P := fun s : Scene ρ V I => s.Sound ∧ ∃ ks : List (GalleryLabel (LogoOwner V) D),
      (galleryRuns platform).run .init ks = some s.gallery)
    (fun s l _ ⟨hs, ks, hks⟩ ht => ⟨hs.step ht, ks ++ s.galleryLabels l,
      Transition.System.run_append.2 ⟨_, hks, step_gallery hs.toOwned ht⟩⟩)
    ⟨sound_init, [], congrArg some gallery_init.symm⟩ h

/-! ## When logos match -/

def LogosMatch (platform : ImagePlatform D I) (s : Scene ρ V I) : Prop :=
  ∀ owner, Shows platform (s.link owner) (s.logo owner)

/-- What a step must find, for every logo to stay that of its link. A closure finds its
image view with a link of its own URL. A cell that gets a row is served by the cache, or
finds no logo in its view but one of the new link. -/
def OnTime (platform : ImagePlatform D I) (s : Scene ρ V I) : SceneLabel V D → Prop
  | .setImage => ∀ c ∈ s.images.head?, (s.link c.cell).bind platform.url = some c.url
  | .cellForRow cell row => ∀ viewModel ∈ s.teams.view.cellsViewModels[row]?,
    (∃ url, platform.url viewModel.logoAddress = some url ∧
      (s.imageCache url.absoluteString).isSome) ∨
    Shows platform (some viewModel.logoAddress) (s.cells cell).logoImageView.image
  | .teams _ | .prepareForReuse _ | .back | .respond .. | .evict _ => True

theorem logosMatch_iff_gallery :
    s.LogosMatch platform ↔ s.gallery.ShowsConfigured platform := by
  refine forall_congr' fun owner => ?_
  rw [← logo_galleryCell]
  rfl

theorem onTime_iff_gallery :
    s.OnTime platform l ↔ ∀ k ∈ s.galleryLabels l, s.gallery.OnTime platform k := by
  cases l with
  | teams l =>
    refine ⟨fun _ k hk => ?_, fun _ => trivial⟩
    obtain ⟨team, -, rfl⟩ := List.mem_map.1 hk
    refine .inr fun image himage => ?_
    simp [gallery, galleryCell, TeamCell.init] at himage
  | cellForRow cell row =>
    unfold galleryLabels
    simp only [List.forall_mem_map, Option.mem_toList]
    rfl
  | back => exact ⟨fun _ => nofun, fun _ => trivial⟩
  | prepareForReuse | respond | evict =>
    exact ⟨fun _ k hk => List.mem_singleton.1 hk ▸ trivial, fun _ => trivial⟩
  | setImage =>
    unfold galleryLabels
    rw [List.forall_mem_singleton]
    rfl

theorem step_match (h : s.Sound) (hmatch : s.LogosMatch platform)
    (ht : s.step store service platform l = some t) :
    t.LogosMatch platform ↔ s.OnTime platform l := by
  rw [logosMatch_iff_gallery] at hmatch ⊢
  rw [onTime_iff_gallery]
  have hrun := step_gallery h.toOwned ht
  rcases hlabels : s.galleryLabels l with _ | ⟨k, _ | ⟨k', ks⟩⟩
  · rw [hlabels] at hrun
    rw [← Option.some.inj hrun]
    exact ⟨fun _ => nofun, fun _ => hmatch⟩
  · rw [hlabels, Transition.System.run_cons] at hrun
    obtain ⟨g, hg, hrest⟩ := hrun
    rw [← Option.some.inj hrest, List.forall_mem_singleton]
    exact Gallery.step_shows h.gallery hmatch hg
  · exact absurd (congrArg List.length hlabels) (by
      have := length_galleryLabels s l
      simp
      omega)

end Step

/-- **When logos never mix in the app.** In a run from the launch on, whatever is tapped,
scrolled, popped, downloaded and evicted, every logo is that of its image view's link in
all the states, if and only if every step is on time. -/
theorem logos_match_iff (store : TeamStore ρ) (database : ρ)
    (service : Publisher Executor (List TeamNetworkModel) NetworkPlataformError)
    (platform : ImagePlatform D I) (ls : List (SceneLabel V D)) (s : Scene ρ V I)
    (h : (scene store database service platform).run
      (scene store database service platform).init ls = some s) :
    (scene store database service platform).Throughout (LogosMatch platform)
        (scene store database service platform).init ls ↔
      (scene store database service platform).Within (OnTime platform)
        (scene store database service platform).init ls :=
  Transition.System.throughout_iff_within (I := Sound) (fun _ _ _ hs ht => hs.step ht)
    (fun _ _ _ hs hmatch ht => step_match hs hmatch ht) sound_init
    (logosMatch_iff_gallery.2 (by rw [gallery_init]; exact fun _ => nofun)) h

def twoTeamsRealm : Realm := Screen.dallasRealm.add [.init bostonUprising.asDomain]

def offlineScene : Transition.System (Scene Realm Bool Unit) (SceneLabel Bool Unit) :=
  scene TeamsRealmRepository.store twoTeamsRealm (NetworkOutcome.failure .unkown).publisher
    Gallery.anyImage

/-- Each logo arrives before its cell is used again, and a details screen finds the first
one in the cache. -/
def timelyLogos : List (SceneLabel Bool Unit) :=
  [.teams (.execute true), .cellForRow false 0,
    .respond 0 (some ()) (some ⟨some 200, some "image/png"⟩) none, .setImage,
    .teams (.select 0), .prepareForReuse false, .cellForRow false 1,
    .respond 0 (some ()) (some ⟨some 200, some "image/png"⟩) none, .setImage]

theorem within_timelyLogos :
    offlineScene.Within (OnTime Gallery.anyImage) offlineScene.init timelyLogos := by
  refine ⟨trivial, ?_⟩
  rintro _ ⟨⟩
  refine ⟨fun _ _ => .inr nofun, ?_⟩
  rintro _ ⟨⟩
  refine ⟨trivial, ?_⟩
  rintro _ ⟨⟩
  refine ⟨?_, ?_⟩
  · rintro c ⟨⟩
    rfl
  rintro _ ⟨⟩
  refine ⟨trivial, ?_⟩
  rintro _ ⟨⟩
  refine ⟨trivial, ?_⟩
  rintro _ ⟨⟩
  refine ⟨fun _ _ => .inr nofun, ?_⟩
  rintro _ ⟨⟩
  refine ⟨trivial, ?_⟩
  rintro _ ⟨⟩
  refine ⟨?_, fun _ _ => trivial⟩
  rintro c ⟨⟩
  rfl

theorem logos_match_timelyLogos :
    offlineScene.Throughout (LogosMatch Gallery.anyImage) offlineScene.init timelyLogos := by
  obtain ⟨s, hs⟩ : ∃ s, offlineScene.run offlineScene.init timelyLogos = some s := ⟨_, rfl⟩
  exact (logos_match_iff TeamsRealmRepository.store twoTeamsRealm
    (NetworkOutcome.failure .unkown).publisher Gallery.anyImage timelyLogos s hs).2
    within_timelyLogos

end Scene

end OverwatchTeams
