import OverwatchTeams.App.SceneGallery
import OverwatchTeams.App.Persistence
import Mathlib.Data.List.InsertIdx

/-!
# Logos across the app

The logos of a scene, of cells and details screens alike, are fetches through one
shared cache: each step of a scene is a step of them or none (`run_logos`). So a
logo was always downloaded for its own image view, and no request is lost.

A cell asks for many logos in its life, and may show any of them. A details screen
asks for one, so that it never shows another team's, however late the downloads and
whatever else uses the cache (`details_show_opened`). Cells only ask for rows of the
two lists of their launch (`cells_show_rows`).
-/

namespace OverwatchTeams

open Combine TeamsPresenterImp

variable {ρ V D I : Type}

namespace Scene

/-! ## A scene as fetches -/

/-- The URL that an image view needs: that of a configured cell's row, or that of a
details screen's team. -/
def asked [DecidableEq V] (platform : ImagePlatform D I) (s : Scene ρ V I) :
    LogoOwner V → Option URL
  | .cell cell =>
    if s.ready cell then none else (s.row cell).bind fun row => platform.url row.logoAddress
  | .details position =>
    s.teams.opened[position]?.bind fun team => platform.url team.logoAddress

/-- A URL that an image view was given: a row of the cell, or the team of the details
screen. -/
def Linked (platform : ImagePlatform D I) (s : Scene ρ V I) : LogoOwner V → URL → Prop
  | .cell cell, url => ∃ row, (cell, row) ∈ s.dequeued ∧ platform.url row.logoAddress = some url
  | .details position, url =>
    ∃ team, s.teams.opened[position]? = some team ∧ platform.url team.logoAddress = some url

/-- The fetches that a scene stands for. -/
def logos [DecidableEq V] (platform : ImagePlatform D I) (s : Scene ρ V I) :
    Fetch.State (LogoOwner V) URL I where
  shown := fun owner => (s.logo owner).map fun image => (image.source, image.content)
  cache := fun url => (s.imageCache url.absoluteString).map UIImage.content
  inFlight := s.inFlight.map fun d => (d.cell, d.url)
  queue := s.images.map fun c => (c.cell, c.url, c.image.content)
  asked := s.asked platform

section Step

variable [DecidableEq V] {store : TeamStore ρ} {database : ρ}
  {service : Publisher Executor (List TeamNetworkModel) NetworkPlataformError}
  {platform : ImagePlatform D I} {s t : Scene ρ V I} {l : SceneLabel V D}

/-! ## Each step is a step of the fetches, or none -/

theorem logo_setImage {owner : LogoOwner V} (h : s.Has owner) (image : UIImage I) :
    (Scene.setImage owner image s).logo = Function.update s.logo owner (some image) := by
  funext other
  rw [Function.update_apply]
  cases owner with
  | cell cell =>
    cases other with
    | cell other =>
      by_cases heq : other = cell
      · simp [Scene.setImage, logo, heq]
      · simp [Scene.setImage, logo, heq]
    | details other => rfl
  | details position =>
    cases other with
    | cell other => rfl
    | details other =>
      by_cases heq : other = position
      · unfold Has at h
        simp [Scene.setImage, logo, heq, h]
      · simp [Scene.setImage, logo, heq, List.getElem?_modify_ne, Ne.symm heq]

theorem Sound.source (h : s.Sound) {url : URL} {image : UIImage I}
    (hcache : s.imageCache url.absoluteString = some image) : image.source = url := by
  have habsolute := h.gallery.cache _ _ hcache
  cases hs : image.source
  rw [hs] at habsolute
  cases url
  exact congrArg URL.mk habsolute

theorem shown_update {logo logo' : LogoOwner V → Option (UIImage I)} {owner : LogoOwner V}
    {o : Option (UIImage I)} (h : logo' = Function.update logo owner o) :
    (fun other => (logo' other).map fun image => (image.source, image.content)) =
      Function.update (fun other => (logo other).map fun image => (image.source, image.content))
        owner (o.map fun image => (image.source, image.content)) := by
  funext other
  rw [h, Function.update_apply, Function.update_apply]
  split <;> rfl

/-- A call of `downloaded` on an image view that asked for nothing is a request, if
its link is a URL. -/
theorem logos_of_downloaded (h : s.Sound) {owner : LogoOwner V} {link : String}
    {mode : ContentMode} {v : UIImageView I} (hv : v.image = s.logo owner)
    (hwas : s.asked platform owner = none) (hcache : t.imageCache = s.imageCache)
    (himages : t.images = s.images)
    (hlogo : t.logo = Function.update s.logo owner
      (v.downloaded platform s.imageCache link mode).1.image)
    (hinFlight : t.inFlight = s.inFlight ++ ((v.downloaded platform s.imageCache link mode).2.map
      fun url => (⟨owner, url⟩ : Download (LogoOwner V))).toList)
    (hasked : t.asked platform =
      Function.update (s.asked platform) owner (platform.url link)) :
    t.logos platform = s.logos platform ∨
      ∃ url, platform.url link = some url ∧
        t.logos platform = (s.logos platform).request owner url := by
  unfold logos
  rw [shown_update hlogo, hinFlight, hasked, hcache, himages]
  rcases UIImageView.downloaded_cases platform s.imageCache link mode v with
    ⟨hurl, hdownloaded⟩ | ⟨url, hurl, ⟨hmiss, hdownloaded⟩ | ⟨image, hhit, hdownloaded⟩⟩
  · left
    simp only [hdownloaded, hurl, hv, Option.map_none, Option.toList_none, List.append_nil]
    rw [← shown_update (Function.update_eq_self ..).symm, ← hwas, Function.update_eq_self]
  · right
    refine ⟨url, hurl, ?_⟩
    rw [hdownloaded, hurl, hv, ← shown_update (Function.update_eq_self ..).symm]
    simp only [Fetch.State.request, hmiss, Option.map_none, Option.map_some, Option.toList_some,
      List.map_append, List.map_cons, List.map_nil]
  · right
    refine ⟨url, hurl, ?_⟩
    rw [hdownloaded, hurl]
    simp only [Fetch.State.request, hhit, Option.map_none, Option.map_some, Option.toList_none,
      List.append_nil, h.source hhit]

def Succeeds (platform : ImagePlatform D I) : SceneLabel V D → Prop
  | .respond _ data response error =>
    (UIImageView.imageOfResponse platform data response error).isSome
  | .teams _ | .cellForRow .. | .prepareForReuse _ | .back | .setImage | .evict _ => True

omit [DecidableEq V] in
theorem cache_update (imageCache : ImageCache I) (key : String) (o : Option (UIImage I)) :
    (fun url : URL => (Function.update imageCache key o url.absoluteString).map UIImage.content) =
      Function.update (fun url : URL => (imageCache url.absoluteString).map UIImage.content) ⟨key⟩
        (o.map UIImage.content) := by
  funext url
  rw [Function.update_apply, Function.update_apply]
  cases url
  simp only [URL.mk.injEq]
  split <;> rfl

theorem asked_cellForRow (cell : V) (viewModel : TeamCell.ViewModel) :
    (s.cellForRow platform cell viewModel).asked platform =
      Function.update (s.asked platform) (.cell cell) (platform.url viewModel.logoAddress) := by
  funext other
  rw [Function.update_apply]
  cases other with
  | cell other =>
    by_cases heq : other = cell
    · simp [asked, row, Scene.cellForRow, row_concat, heq]
    · simp [asked, row, Scene.cellForRow, row_concat, heq]
  | details position => rfl

theorem logo_cellForRow (cell : V) (viewModel : TeamCell.ViewModel) :
    (s.cellForRow platform cell viewModel).logo =
      Function.update s.logo (.cell cell) ((s.cells cell).logoImageView.downloaded platform
        s.imageCache viewModel.logoAddress .scaleAspectFit).1.image := by
  funext other
  rw [Function.update_apply]
  cases other with
  | cell other =>
    by_cases heq : other = cell
    · simp [logo, Scene.cellForRow, TeamCell.configure, heq]
    · simp [logo, Scene.cellForRow, heq]
  | details position => rfl

theorem asked_teamSelected (h : s.Sound) (team : TeamModel) (teams : Screen ρ)
    (hopened : teams.opened = s.teams.opened ++ [team]) :
    (TeamsRouterImp.teamSelected platform team { s with teams }).asked platform =
      Function.update (s.asked platform) (.details s.details.length)
        (platform.url team.logoAddress) := by
  funext other
  rw [Function.update_apply]
  cases other with
  | cell other => rfl
  | details position =>
    show teams.opened[position]?.bind _ = _
    rw [hopened, getElem?_concat, ← h.details]
    by_cases heq : position = s.details.length
    · simp [heq]
    · simp [heq, asked]

theorem logo_teamSelected (team : TeamModel) (teams : Screen ρ) :
    (TeamsRouterImp.teamSelected platform team { s with teams }).logo =
      Function.update s.logo (.details s.details.length) (UIImageView.downloaded platform
        s.imageCache team.logoAddress .scaleAspectFit
          { image := none, contentMode := .scaleAspectFit }).1.image := by
  funext other
  rw [Function.update_apply]
  cases other with
  | cell other => rfl
  | details position =>
    show (s.details ++ [_])[position]?.bind _ = _
    rw [getElem?_concat]
    by_cases heq : position = s.details.length
    · simp only [heq, if_true, Option.bind_some]
      rfl
    · simp [heq, logo]

omit [DecidableEq V] in
theorem logo_next_details : s.logo (.details s.details.length) = none := by
  simp [logo]

theorem asked_next_details (h : s.Sound) :
    s.asked platform (.details s.details.length) = none := by
  simp [asked, h.details]

/-- From the fetches of `s` to those of `t`: requests are for a URL that the image view
was given, and fetches only fail where data tasks do. -/
def Fetched (platform : ImagePlatform D I) (l : SceneLabel V D) (s t : Scene ρ V I) : Prop :=
  ∃ ks, (Fetch.fetches (LogoOwner V) URL I).run (s.logos platform) ks =
      some (t.logos platform) ∧
    (∀ owner url, .request owner url ∈ ks → t.Linked platform owner url) ∧
    (Succeeds platform l → ∀ k ∈ ks, k.Succeeds)

theorem fetched_of_eq (h : t.logos platform = s.logos platform) : Fetched platform l s t :=
  ⟨[], congrArg some h.symm, nofun, nofun⟩

theorem fetched_of_step {k : Fetch.Label (LogoOwner V) URL I}
    (h : (s.logos platform).step k = some (t.logos platform))
    (hlinked : ∀ owner url, k = .request owner url → t.Linked platform owner url)
    (hsucceeds : Succeeds platform l → k.Succeeds) : Fetched platform l s t := by
  refine ⟨[k], Transition.System.run_cons.2 ⟨_, h, rfl⟩, fun owner url hmem => ?_,
    fun hl k' hk' => ?_⟩
  · exact hlinked owner url (List.mem_singleton.1 hmem).symm
  · exact List.mem_singleton.1 hk' ▸ hsucceeds hl

theorem fetched_teamSelected (h : s.Sound) (team : TeamModel) (teams : Screen ρ)
    (hopened : teams.opened = s.teams.opened ++ [team]) :
    Fetched platform l s (TeamsRouterImp.teamSelected platform team { s with teams }) := by
  rcases logos_of_downloaded (t := TeamsRouterImp.teamSelected platform team { s with teams }) h
      logo_next_details.symm (asked_next_details h) rfl rfl (logo_teamSelected team teams) rfl
      (asked_teamSelected h team teams hopened) with heq | ⟨url, hurl, heq⟩
  · exact fetched_of_eq heq
  · refine fetched_of_step (k := .request (.details s.details.length) url)
      (congrArg some heq.symm) ?_ fun _ => trivial
    rintro owner url' ⟨⟩
    refine ⟨team, ?_, hurl⟩
    show teams.opened[s.details.length]? = some team
    rw [hopened, h.details, List.getElem?_concat_length]

theorem fetched_cellForRow (h : s.Sound) (cell : V) (viewModel : TeamCell.ViewModel)
    (hready : s.ready cell = true) :
    Fetched platform l s (s.cellForRow platform cell viewModel) := by
  have hwas : s.asked platform (.cell cell) = none := by
    unfold asked
    exact if_pos hready
  rcases logos_of_downloaded (t := s.cellForRow platform cell viewModel) h
      (v := (s.cells cell).logoImageView) rfl hwas rfl rfl
      (logo_cellForRow cell viewModel) rfl (asked_cellForRow cell viewModel) with
    heq | ⟨url, hurl, heq⟩
  · exact fetched_of_eq heq
  · refine fetched_of_step (k := .request (.cell cell) url) (congrArg some heq.symm) ?_
      fun _ => trivial
    rintro owner url' ⟨⟩
    exact ⟨viewModel, List.mem_concat_self, hurl⟩

theorem fetched_prepareForReuse (cell : V) : Fetched platform l s (s.prepareForReuse cell) := by
  refine fetched_of_step (k := .clear (.cell cell)) ?_ nofun fun _ => trivial
  have hlogo : (s.prepareForReuse cell).logo = Function.update s.logo (.cell cell) none := by
    funext other
    rw [Function.update_apply]
    cases other with
    | cell other =>
      by_cases heq : other = cell
      · simp [logo, Scene.prepareForReuse, TeamCell.prepareForReuse, heq]
      · simp [logo, Scene.prepareForReuse, heq]
    | details position => rfl
  have hasked : (s.prepareForReuse cell).asked platform =
      Function.update (s.asked platform) (.cell cell) none := by
    funext other
    rw [Function.update_apply]
    cases other with
    | cell other =>
      by_cases heq : other = cell
      · simp [asked, Scene.prepareForReuse, heq]
      · simp [asked, row, Scene.prepareForReuse, heq]
    | details position => rfl
  unfold logos
  rw [shown_update hlogo, hasked]
  rfl

theorem fetched_respond (position : Nat) (data : Option D) (response : Option URLResponse)
    (error : Option URLError) (d : Download (LogoOwner V)) (hget : s.inFlight[position]? = some d) :
    Fetched platform (.respond position data response error) s
      (respond platform d data response error
        { s with inFlight := s.inFlight.eraseIdx position }) := by
  refine fetched_of_step
    (k := .respond position (UIImageView.imageOfResponse platform data response error)) ?_ nofun
    id
  have hget' : (s.logos platform).inFlight[position]? = some (d.cell, d.url) := by
    simp only [logos, List.getElem?_map, hget, Option.map_some]
  simp only [Fetch.State.step, hget']
  unfold respond
  cases UIImageView.imageOfResponse platform data response error with
  | none =>
    simp only [logos, List.eraseIdx_map, Option.map_none, Option.toList_none, List.append_nil]
    rfl
  | some content =>
    simp only [logos, List.eraseIdx_map, Option.map_some, Option.toList_some, List.map_append,
      List.map_cons, List.map_nil]
    rfl

theorem logos_setImage {owner : LogoOwner V} (h : s.Has owner) (image : UIImage I) :
    (Scene.setImage owner image s).logos platform =
      { s.logos platform with
        shown := Function.update (s.logos platform).shown owner
          (some (image.source, image.content)) } := by
  unfold logos
  rw [shown_update (logo_setImage h image)]
  cases owner <;> rfl

theorem fetched_runClosure (h : s.Sound) {c : ImageClosure (LogoOwner V) I}
    {q : List (ImageClosure (LogoOwner V) I)} (hq : s.images = c :: q) :
    Fetched platform l s (runClosure c { s with images := q }) := by
  have hmem : c ∈ s.images := by
    rw [hq]
    exact List.mem_cons_self
  have hhas : s.Has c.cell := h.queue c hmem
  have hsource : c.image.source = c.url := h.gallery.queue c hmem
  refine fetched_of_step (k := .execute) ?_ nofun fun _ => trivial
  have hqueue : (s.logos platform).queue =
      (c.cell, c.url, c.image.content) :: q.map fun c => (c.cell, c.url, c.image.content) := by
    simp only [logos, hq, List.map_cons]
  simp only [Fetch.State.step, hqueue]
  unfold runClosure
  rw [logos_setImage (by exact hhas), hsource]
  unfold logos
  rw [cache_update]
  rfl

/-- **Each step of a scene is a step of its fetches, or none.** -/
theorem fetched_of_next (h : s.Sound) (hn : Next store service platform s l t) :
    Fetched platform l s t := by
  cases hn with
  | teams l teams hstep hopened =>
    refine fetched_of_eq ?_
    have hasked : Scene.asked platform { s with teams } = s.asked platform := by
      funext other
      cases other with
      | cell other => rfl
      | details position => simp only [asked, hopened]
    unfold logos
    rw [hasked]
    rfl
  | select row team teams hstep hopened => exact fetched_teamSelected h team teams hopened
  | cellForRow cell row viewModel hready => exact fetched_cellForRow h cell viewModel hready
  | prepareForReuse cell => exact fetched_prepareForReuse cell
  | back => exact fetched_of_eq rfl
  | respond position data response error d hget =>
    exact fetched_respond position data response error d hget
  | setImage c q hq => exact fetched_runClosure h hq
  | evict key =>
    refine fetched_of_step (k := .evict ⟨key⟩) ?_ nofun fun _ => trivial
    unfold logos
    rw [cache_update]
    rfl

omit [DecidableEq V] in
theorem Linked.mono {owner : LogoOwner V} {url : URL} (h : s.Linked platform owner url)
    (hdequeued : s.dequeued <+: t.dequeued) (hopened : s.teams.opened <+: t.teams.opened) :
    t.Linked platform owner url := by
  cases owner with
  | cell cell =>
    obtain ⟨row, hrow, hurl⟩ := h
    exact ⟨row, hdequeued.subset hrow, hurl⟩
  | details position =>
    obtain ⟨team, hteam, hurl⟩ := h
    obtain ⟨hlt, rfl⟩ := List.getElem?_eq_some_iff.1 hteam
    exact ⟨_, List.prefix_iff_getElem?.1 hopened position hlt, hurl⟩

theorem Next.given (hn : Next store service platform s l t) :
    s.dequeued <+: t.dequeued ∧ s.teams.opened <+: t.teams.opened := by
  cases hn with
  | teams l teams hstep hopened => exact ⟨List.prefix_rfl, hopened ▸ List.prefix_rfl⟩
  | select row team teams hstep hopened =>
    refine ⟨List.prefix_rfl, ?_⟩
    show s.teams.opened <+: teams.opened
    rw [hopened]
    exact List.prefix_append ..
  | cellForRow => exact ⟨List.prefix_append .., List.prefix_rfl⟩
  | prepareForReuse | back | evict => exact ⟨List.prefix_rfl, List.prefix_rfl⟩
  | respond position data response error d hget =>
    unfold Scene.respond
    split <;> exact ⟨List.prefix_rfl, List.prefix_rfl⟩
  | setImage c q hq =>
    unfold runClosure Scene.setImage
    split <;> exact ⟨List.prefix_rfl, List.prefix_rfl⟩

theorem logos_init :
    (scene (V := V) store database service platform).init.logos platform = .init := by
  have hopened : (teamsScreen store database service).init.opened = [] := by
    rw [Screen.init_eq]
  have hasked : (scene (V := V) store database service platform).init.asked platform =
      fun _ => none := by
    funext owner
    cases owner with
    | cell cell => rfl
    | details position =>
      show (teamsScreen store database service).init.opened[position]?.bind _ = none
      rw [hopened]
      rfl
  have hlogo : (scene (V := V) store database service platform).init.logo = fun _ => none := by
    funext owner
    cases owner <;> rfl
  unfold logos
  rw [hasked, hlogo]
  rfl

/-- The sound scenes of runs, and the fetches they stand for. -/
theorem run_logos {ls : List (SceneLabel V D)}
    (h : (scene store database service platform).run
      (scene store database service platform).init ls = some s) :
    s.Sound ∧ ∃ ks, (Fetch.fetches (LogoOwner V) URL I).run .init ks = some (s.logos platform) ∧
      (∀ owner url, .request owner url ∈ ks → s.Linked platform owner url) ∧
      ((∀ l ∈ ls, Succeeds platform l) → ∀ k ∈ ks, k.Succeeds) := by
  have hrun := Transition.System.run_history
    (P := fun done (s : Scene ρ V I) => s.Sound ∧ ∃ ks,
      (Fetch.fetches (LogoOwner V) URL I).run .init ks = some (s.logos platform) ∧
      (∀ owner url, .request owner url ∈ ks → s.Linked platform owner url) ∧
      ((∀ l ∈ done, Succeeds platform l) → ∀ k ∈ ks, k.Succeeds))
    (fun done s l t hs ht => by
      obtain ⟨hsound, ks, hks, hlinked, hsucceeds⟩ := hs
      have hn := next_of_step ht
      obtain ⟨ks', hks', hlinked', hsucceeds'⟩ := fetched_of_next hsound hn
      refine ⟨hsound.step ht, ks ++ ks', Transition.System.run_append.2 ⟨_, hks, hks'⟩, ?_, ?_⟩
      · intro owner url hmem
        rcases List.mem_append.1 hmem with hmem | hmem
        · exact (hlinked owner url hmem).mono hn.given.1 hn.given.2
        · exact hlinked' owner url hmem
      · intro hdone
        rw [List.forall_mem_append, List.forall_mem_singleton] at hdone
        exact List.forall_mem_append.2 ⟨hsucceeds hdone.1, hsucceeds' hdone.2⟩)
    [] ⟨sound_init, [], congrArg some logos_init.symm, nofun, nofun⟩ h
  exact hrun

end Step

/-! ## Which teams a launch knows -/

def known (store : TeamStore ρ) (database : ρ) (o : NetworkOutcome) : List TeamModel :=
  store.get database ++ o.lists.flatten

structure Known (store : TeamStore ρ) (database : ρ) (o : NetworkOutcome) (s : Screen ρ) :
    Prop where
  rows : s.view.cellsViewModels ⊆ cellsViewModels (known store database o)
  teamsModels : s.teamsModels ⊆ known store database o
  opened : s.opened ⊆ known store database o

section Known

variable {store : TeamStore ρ} {database : ρ} {o : NetworkOutcome} {s t : Screen ρ}

theorem get_known : store.get database ⊆ known store database o := List.subset_append_left ..

theorem received_known {vs : List TeamNetworkModel} (ho : o = .success vs) :
    asDomainModels vs ⊆ known store database o := by
  subst ho
  unfold known NetworkOutcome.lists
  rw [List.flatten_singleton]
  exact List.subset_append_right ..

theorem content_known {p : Screen.Phase} {executed q : List MainClosure}
    {viewModel : TeamsViewModel} {emission : Emission}
    (h : Screen.Ran store database o p executed s)
    (hq : s.mainQueue = .showContent viewModel emission :: q) :
    ∃ models, viewModel = contentViewModel models ∧ models ⊆ known store database o := by
  have hqueue := h.queue
  rw [hq] at hqueue
  obtain heq | ⟨vs, ho, ⟨heq, -⟩ | ⟨heq, -⟩⟩ := Screen.next_closure hqueue
  · cases heq
    exact ⟨_, rfl, get_known⟩
  · cases heq
  · cases heq
    exact ⟨_, rfl, received_known ho⟩

theorem Known.next {p p' : Screen.Phase} {executed : List MainClosure}
    (h : Known store database o s)
    (hran : Screen.Ran store database o p executed s) (hn : Screen.Next store o s p p' t)
    (hopened : t.opened ⊆ known store database o) : Known store database o t := by
  refine ⟨?_, ?_, hopened⟩
  · cases hn with
    | content _ viewModel emission q hq halive =>
      obtain ⟨models, rfl, hmodels⟩ := content_known hran hq
      exact List.map_subset _ hmodels
    | list | failureShown | failureDropped | finished | save | contentDropped | select | release =>
      exact h.rows
  · cases hn with
    | list vs ho => exact received_known ho
    | failureShown | failureDropped | finished | save | content | contentDropped | select
    | release => exact h.teamsModels

theorem reachable_known (h : (teamsScreen store database o.publisher).Reachable s) :
    Known store database o s := by
  have hinv := h.invariant (P := fun s => (∃ p executed, Screen.Progress o p s ∧
      Screen.Ran store database o p executed s) ∧ Known store database o s)
    ⟨⟨_, _, Screen.progress_init, Screen.ran_init⟩, ?_⟩ ?_
  · exact hinv.2
  · rw [Screen.init_eq]
    exact ⟨List.nil_subset _, get_known, List.nil_subset _⟩
  · rintro s l t ⟨⟨p, executed, hp, hran⟩, hs⟩ ht
    obtain ⟨p', hn⟩ := Screen.next_of_step hp ht
    obtain ⟨executed', hran'⟩ := hran.next hp hn
    refine ⟨⟨p', executed', hn.progress hp, hran'⟩, hs.next hran hn ?_⟩
    rw [screen_step_opened ht]
    refine List.append_subset.2 ⟨hs.opened, ?_⟩
    unfold selected
    split
    · intro team hteam
      exact hs.teamsModels (List.mem_of_getElem? (Option.mem_toList.1 hteam))
    · exact List.nil_subset _
    · exact List.nil_subset _
    · exact List.nil_subset _

end Known

section Runs

variable [DecidableEq V] {store : TeamStore ρ} {database : ρ} {o : NetworkOutcome}
  {platform : ImagePlatform D I} {s : Scene ρ V I} {ls : List (SceneLabel V D)}

theorem dequeued_setImage (owner : LogoOwner V) (image : UIImage I) :
    (Scene.setImage owner image s).dequeued = s.dequeued := by
  cases owner <;> rfl

theorem dequeued_known
    (h : (scene (D := D) store database o.publisher platform).Reachable s) :
    ∀ given ∈ s.dequeued, given.2 ∈ cellsViewModels (known store database o) := by
  have hinv := h.invariant (P := fun s =>
      (teamsScreen store database o.publisher).Reachable s.teams ∧
      ∀ given ∈ s.dequeued, given.2 ∈ cellsViewModels (known store database o))
    ⟨.start, nofun⟩ ?_
  · exact hinv.2
  · rintro s l t ⟨hs, hgiven⟩ ht
    cases next_of_step ht with
    | teams l teams hstep => exact ⟨hs.next hstep, hgiven⟩
    | select row team teams hstep => exact ⟨hs.next (l := .select row) hstep, hgiven⟩
    | cellForRow cell row viewModel hready hrow =>
      refine ⟨hs, List.forall_mem_append.2 ⟨hgiven, List.forall_mem_singleton.2 ?_⟩⟩
      exact (reachable_known hs).rows (List.mem_of_getElem? hrow)
    | prepareForReuse | back | evict => exact ⟨hs, hgiven⟩
    | respond position data response error d hget =>
      unfold Scene.respond
      split <;> exact ⟨hs, hgiven⟩
    | setImage c q hq =>
      unfold runClosure
      rw [setImage_teams, dequeued_setImage]
      exact ⟨hs, hgiven⟩

theorem logo_linked (h : (scene (D := D) store database o.publisher platform).Reachable s)
    {owner : LogoOwner V} {image : UIImage I} (hlogo : s.logo owner = some image) :
    s.Linked platform owner image.source := by
  obtain ⟨ls, hls⟩ := h
  obtain ⟨-, ks, hks, hlinked, -⟩ := run_logos hls
  have hshown : (s.logos platform).shown owner = some (image.source, image.content) := by
    simp only [logos, hlogo, Option.map_some]
  exact hlinked owner image.source (Fetch.shown_requested hks hshown)

/-- **A details screen shows its team.** Whatever the interleaving, however late the
downloads and whatever else fills the shared cache, the details screens are those of
the opened teams, in order; each has the texts of its team, and no logo but that of
its team's link. The navigation stack holds some of them, in order. -/
theorem details_show_opened (store : TeamStore ρ) (database : ρ) (o : NetworkOutcome)
    (platform : ImagePlatform D I) (s : Scene ρ V I)
    (h : (scene (D := D) store database o.publisher platform).Reachable s) :
    List.Forall₂ (fun (c : TeamDetailsViewControllerImp I) team => c.ShowsTeam team ∧
        Shows platform (some team.logoAddress) c.teamDetailsView.logoImageView.image)
      s.details s.teams.opened ∧
    List.Sublist s.viewControllers (List.range s.details.length) ∧
    s.teams.opened ⊆ known store database o := by
  have hlabelled := reachable_labelled h
  refine ⟨?_, hlabelled.stack, (reachable_known (teams_reachable h)).opened⟩
  rw [List.forall₂_iff_get]
  obtain ⟨hlength, hshows⟩ := List.forall₂_iff_get.1 hlabelled.details
  refine ⟨hlength, fun position hdetails hopened => ⟨hshows position hdetails hopened, ?_⟩⟩
  intro image himage
  have hlogo : s.logo (.details position) = some image := by
    simp only [logo, List.getElem?_eq_getElem hdetails, Option.bind_some]
    exact himage
  obtain ⟨team, hteam, hurl⟩ := logo_linked h hlogo
  rw [List.getElem?_eq_getElem hopened, Option.some.injEq] at hteam
  rw [← hteam] at hurl
  exact hurl

/-- Two cached teams are listed in two cells, the second one is opened and its details
screen popped. The cell of the first row is used again for the second one. Only then do
the logos arrive, that of the first row last. -/
def popThenLogos : List (SceneLabel Bool Unit) :=
  [.teams (.execute true), .cellForRow false 0, .cellForRow true 1, .teams (.select 1), .back,
    .prepareForReuse false, .cellForRow false 1,
    .respond 3 (some ()) (some ⟨some 200, some "image/png"⟩) none,
    .respond 2 (some ()) (some ⟨some 200, some "image/png"⟩) none,
    .respond 1 (some ()) (some ⟨some 200, some "image/png"⟩) none,
    .respond 0 (some ()) (some ⟨some 200, some "image/png"⟩) none,
    .setImage, .setImage, .setImage, .setImage]

theorem details_show_opened_boston :
    ∃ s, offlineScene.run offlineScene.init popThenLogos = some s ∧ s.viewControllers = [] ∧
      List.Forall₂ (fun (c : TeamDetailsViewControllerImp Unit) team => c.ShowsTeam team ∧
          Shows Gallery.anyImage (some team.logoAddress) c.teamDetailsView.logoImageView.image)
        s.details [bostonUprising.asDomain] := by
  obtain ⟨s, hs, hstack, hopened⟩ : ∃ s, offlineScene.run offlineScene.init popThenLogos = some s ∧
      s.viewControllers = [] ∧ s.teams.opened = [bostonUprising.asDomain] := ⟨_, rfl, rfl, rfl⟩
  have hdetails := details_show_opened TeamsRealmRepository.store twoTeamsRealm
    (.failure .unkown) Gallery.anyImage s ⟨popThenLogos, hs⟩
  rw [hopened] at hdetails
  exact ⟨s, hs, hstack, hdetails.1⟩

/-- **What a cell shows.** Whatever the interleaving, a cell is blank, or has the texts
of the row it was last configured with, all of one row; and its logo, which may be a
late one, is that of a row this very cell was configured with. Either way the row is
one of the cached list or of the network list. -/
theorem cells_show_rows (store : TeamStore ρ) (database : ρ) (o : NetworkOutcome)
    (platform : ImagePlatform D I) (s : Scene ρ V I)
    (h : (scene (D := D) store database o.publisher platform).Reachable s) (cell : V) :
    (if s.ready cell then
      (s.cells cell).nameLabel = none ∧ (s.cells cell).abbreviatedNameLabel = none
    else ∃ viewModel, s.row cell = some viewModel ∧ CellShows (s.cells cell) viewModel) ∧
    (∀ viewModel, s.row cell = some viewModel →
      viewModel ∈ cellsViewModels (known store database o)) ∧
    ∀ image, (s.cells cell).logoImageView.image = some image →
      ∃ viewModel ∈ cellsViewModels (known store database o),
        (cell, viewModel) ∈ s.dequeued ∧
          platform.url viewModel.logoAddress = some image.source := by
  have hlabelled := reachable_labelled h
  have hknown := dequeued_known h
  refine ⟨?_, fun viewModel hrow => ?_, fun image himage => ?_⟩
  · split
    · next hready => exact hlabelled.blank cell hready
    · next hready => exact hlabelled.configured cell (by simpa using hready)
  · obtain ⟨given, hgiven, rfl⟩ := Option.map_eq_some_iff.1 hrow
    exact hknown given (Keyed.mem_of_latest hgiven)
  · obtain ⟨viewModel, hgiven, hurl⟩ :=
      logo_linked h (show s.logo (.cell cell) = some image from himage)
    exact ⟨viewModel, hknown _ hgiven, hgiven, hurl⟩

theorem cells_show_rows_reused :
    ∃ s, offlineScene.run offlineScene.init popThenLogos = some s ∧
      CellShows (s.cells false) ⟨"bos.png", "Boston Uprising", "BOS"⟩ ∧
      (s.cells false).logoImageView.image = some ⟨(), ⟨"dal.png"⟩⟩ ∧
      ∃ viewModel ∈ cellsViewModels (known TeamsRealmRepository.store twoTeamsRealm
        (.failure .unkown)), (false, viewModel) ∈ s.dequeued ∧
          Gallery.anyImage.url viewModel.logoAddress = some ⟨"dal.png"⟩ := by
  obtain ⟨s, hs, hready, hrow, himage⟩ : ∃ s,
      offlineScene.run offlineScene.init popThenLogos = some s ∧ s.ready false = false ∧
      s.row false = some ⟨"bos.png", "Boston Uprising", "BOS"⟩ ∧
      (s.cells false).logoImageView.image = some ⟨(), ⟨"dal.png"⟩⟩ := ⟨_, rfl, rfl, rfl, rfl⟩
  obtain ⟨htexts, -, hlogo⟩ := cells_show_rows TeamsRealmRepository.store twoTeamsRealm
    (.failure .unkown) Gallery.anyImage s ⟨popThenLogos, hs⟩ false
  rw [hready] at htexts
  obtain ⟨viewModel, hlast, hshows⟩ := htexts
  rw [hrow, Option.some.injEq] at hlast
  exact ⟨s, hs, hlast ▸ hshows, himage, hlogo _ himage⟩

/-- **No logo is lost.** When every data task of a run brought an image, and none is
left in flight or in the main queue, every configured cell whose row links to a URL
shows a logo, and every details screen shows the logo of its team. -/
theorem logos_arrive (store : TeamStore ρ) (database : ρ) (o : NetworkOutcome)
    (platform : ImagePlatform D I) (ls : List (SceneLabel V D)) (s : Scene ρ V I)
    (h : (scene store database o.publisher platform).run
      (scene store database o.publisher platform).init ls = some s)
    (hsucceeds : ∀ l ∈ ls, Succeeds platform l) (hinFlight : s.inFlight = [])
    (himages : s.images = []) :
    (∀ cell viewModel, s.ready cell = false → s.row cell = some viewModel →
      (platform.url viewModel.logoAddress).isSome →
        (s.cells cell).logoImageView.image.isSome) ∧
    ∀ (position : Nat) (c : TeamDetailsViewControllerImp I) (team : TeamModel) (url : URL),
      s.details[position]? = some c →
      s.teams.opened[position]? = some team → platform.url team.logoAddress = some url →
        ∃ image, c.teamDetailsView.logoImageView.image = some image ∧ image.source = url := by
  obtain ⟨hsound, ks, hks, hlinked, hks'⟩ := run_logos h
  have hshown : ∀ owner, (s.asked platform owner).isSome → (s.logo owner).isSome := by
    intro owner hasked
    have hshown := Fetch.asked_shown hks (hks' hsucceeds) (by simp only [logos, hinFlight]; rfl)
      (by simp only [logos, himages]; rfl) hasked
    simpa only [logos, Option.isSome_map] using hshown
  constructor
  · intro cell viewModel hready hrow hurl
    refine hshown (.cell cell) ?_
    simp only [asked, hready, hrow]
    exact hurl
  · intro position c team url hc hteam hurl
    have himage := hshown (.details position) (by simp only [asked, hteam]; simp [hurl])
    simp only [logo, hc, Option.bind_some] at himage
    obtain ⟨image, himage⟩ := Option.isSome_iff_exists.1 himage
    have hlogo : s.logo (.details position) = some image := by
      simp only [logo, hc, Option.bind_some]
      exact himage
    obtain ⟨team', hteam', hurl'⟩ := logo_linked ⟨ls, h⟩ hlogo
    rw [hteam, Option.some.injEq] at hteam'
    rw [← hteam', hurl, Option.some.injEq] at hurl'
    exact ⟨image, himage, hurl'.symm⟩

theorem logos_arrive_reused :
    ∃ s, offlineScene.run offlineScene.init popThenLogos = some s ∧
      (∀ cell, (s.cells cell).logoImageView.image.isSome) ∧
      ∃ c image, s.details = [c] ∧ c.teamDetailsView.logoImageView.image = some image ∧
        image.source = ⟨"bos.png"⟩ := by
  obtain ⟨s, hs, hready, hrow, hflight, himages, c, hdetails, hopened⟩ : ∃ s,
      offlineScene.run offlineScene.init popThenLogos = some s ∧ (∀ cell, s.ready cell = false) ∧
      (∀ cell, s.row cell = some ⟨"bos.png", "Boston Uprising", "BOS"⟩) ∧ s.inFlight = [] ∧
      s.images = [] ∧ ∃ c, s.details = [c] ∧ s.teams.opened = [bostonUprising.asDomain] :=
    ⟨_, rfl, by intro cell; cases cell <;> rfl, by intro cell; cases cell <;> rfl, rfl, rfl,
      _, rfl, rfl⟩
  have hsucceeds : ∀ l ∈ popThenLogos, Succeeds Gallery.anyImage l := by
    have hbody : (UIImageView.imageOfResponse Gallery.anyImage (some ())
        (some ⟨some 200, some "image/png"⟩) none).isSome := by decide
    simp [popThenLogos, Succeeds, hbody]
  obtain ⟨hcells, hscreens⟩ := logos_arrive TeamsRealmRepository.store twoTeamsRealm
    (.failure .unkown) Gallery.anyImage popThenLogos s hs hsucceeds hflight himages
  obtain ⟨image, himage, hsource⟩ :=
    hscreens 0 c _ ⟨"bos.png"⟩ (by rw [hdetails]; rfl) (by rw [hopened]; rfl) rfl
  exact ⟨s, hs, fun cell => hcells cell _ (hready cell) (hrow cell) rfl, c, image, hdetails,
    himage, hsource⟩

end Runs

end Scene

end OverwatchTeams
