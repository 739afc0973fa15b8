import OverwatchTeams.App.TeamsScreen
import OverwatchTeams.App.TeamDetails
import OverwatchTeams.NetworkPlatform.WellFormed
import OverwatchTeams.Lib.Fetch

/-!
# The scene

`SceneDelegate` puts the teams screen under a navigation controller. A tap on a row
goes through the presenter to `TeamsRouterImp`, which pushes a details screen; the
table configures its cells with the rows of the teams view; and the image views of
cells and of details screens share one cache and one main queue.

A `Scene` is the state of all of it, and its labels are what can happen next in any
order: the steps of the teams screen, the calls of the table, the back button, the
data tasks of the logos, and evictions. Whatever happens, the teams screen of a
scene takes a run of its own (`teams_run`), and the logos are fetches through a
shared cache (`run_logos`).

`ready`, `dequeued` and the positions in `viewControllers` are observations. The
closures that set images are kept in a list of their own: in which order they run
relative to those of the teams screen is left open.
-/

namespace OverwatchTeams

open Combine

/-- The image views of the app: those of the table's cells and those of the details
screens, by the position in which they were pushed. -/
inductive LogoOwner (V : Type) where
  | cell (cell : V)
  | details (position : Nat)
  deriving DecidableEq, Repr

structure Scene (ρ V I : Type) where
  teams : Screen ρ
  cells : V → TeamCell I
  /-- The cells that are fresh, or prepared for reuse and not configured since. -/
  ready : V → Bool
  /-- Which row each call of `cellForRowAt` gave to which cell. -/
  dequeued : List (V × TeamCell.ViewModel)
  /-- Every details screen that was pushed. -/
  details : List (TeamDetailsViewControllerImp I)
  /-- The details screens on the navigation stack, above the teams screen. -/
  viewControllers : List Nat
  imageCache : ImageCache I
  inFlight : List (Download (LogoOwner V))
  images : List (ImageClosure (LogoOwner V) I)

inductive SceneLabel (V D : Type) where
  /-- A step of the teams screen; a tap goes on to the router. -/
  | teams (l : ScreenLabel)
  /-- The table asks for the cell of a row, and gets this one. -/
  | cellForRow (cell : V) (row : Nat)
  | prepareForReuse (cell : V)
  /-- The details screen on top is popped. -/
  | back
  /-- The data task at this position ends. -/
  | respond (position : Nat) (data : Option D) (response : Option URLResponse)
      (error : Option URLError)
  /-- The main queue runs the first closure that sets an image. -/
  | setImage
  | evict (key : String)

variable {ρ V D I : Type}

/-! ## The source's functions on the scene -/

/-- `TeamsRouterImp.teamSelected`, which pushes the screen that the assembler makes. -/
def TeamsRouterImp.teamSelected (platform : ImagePlatform D I) (teamSelected : TeamModel)
    (s : Scene ρ V I) : Scene ρ V I :=
  let (viewController, task) :=
    TeamDetailsModuleAssembler.assemble platform s.imageCache teamSelected
  { s with
    details := s.details ++ [viewController]
    viewControllers := s.viewControllers ++ [s.details.length]
    inFlight := s.inFlight ++ (task.map fun url => ⟨.details s.details.length, url⟩).toList }

namespace Scene

variable [DecidableEq V]

/-- `cellForRowAt`, once it has a cell and the row's view model. -/
def cellForRow (platform : ImagePlatform D I) (cell : V) (viewModel : TeamCell.ViewModel)
    (s : Scene ρ V I) : Scene ρ V I :=
  let (configured, task) := (s.cells cell).configure platform s.imageCache viewModel
  { s with
    cells := Function.update s.cells cell configured
    ready := Function.update s.ready cell false
    dequeued := s.dequeued ++ [(cell, viewModel)]
    inFlight := s.inFlight ++ (task.map fun url => ⟨.cell cell, url⟩).toList }

def prepareForReuse (cell : V) (s : Scene ρ V I) : Scene ρ V I :=
  { s with
    cells := Function.update s.cells cell (s.cells cell).prepareForReuse
    ready := Function.update s.ready cell true }

/-- The completion handler of a data task. -/
def respond (platform : ImagePlatform D I) (d : Download (LogoOwner V)) (data : Option D)
    (response : Option URLResponse) (error : Option URLError) (s : Scene ρ V I) : Scene ρ V I :=
  match UIImageView.imageOfResponse platform data response error with
  | none => s
  | some content => { s with images := s.images ++ [⟨d.cell, d.url, ⟨content, d.url⟩⟩] }

def setImage (owner : LogoOwner V) (image : UIImage I) (s : Scene ρ V I) : Scene ρ V I :=
  match owner with
  | .cell cell =>
    let c := s.cells cell
    { s with
      cells := Function.update s.cells cell
        { c with logoImageView := { c.logoImageView with image := some image } } }
  | .details position =>
    { s with
      details := s.details.modify position fun c =>
        { c with
          teamDetailsView :=
            { c.teamDetailsView with
              logoImageView := { c.teamDetailsView.logoImageView with image := some image } } } }

/-- The closure of the completion handler: into the cache, then into the view. -/
def runClosure (c : ImageClosure (LogoOwner V) I) (s : Scene ρ V I) : Scene ρ V I :=
  setImage c.cell c.image
    { s with
      imageCache := Function.update s.imageCache c.url.absoluteString (some c.image) }

def step (store : TeamStore ρ)
    (service : Publisher Executor (List TeamNetworkModel) NetworkPlataformError)
    (platform : ImagePlatform D I) (s : Scene ρ V I) : SceneLabel V D → Option (Scene ρ V I)
  | .teams l => do
    let teams ← Screen.step store service s.teams l
    match l with
    | .select row =>
      let team ← TeamsPresenterImp.eventHandler s.teams.teamsModels (.elementSelected row)
      return TeamsRouterImp.teamSelected platform team { s with teams }
    | .deliver | .execute _ | .release => return { s with teams }
  | .cellForRow cell row =>
    if s.ready cell then
      s.teams.view.cellsViewModels[row]?.map fun viewModel => s.cellForRow platform cell viewModel
    else none
  | .prepareForReuse cell => some (s.prepareForReuse cell)
  | .back =>
    match s.viewControllers with
    | [] => none
    | _ :: _ => some { s with viewControllers := s.viewControllers.dropLast }
  | .respond position data response error => do
    let d ← s.inFlight[position]?
    return respond platform d data response error
      { s with inFlight := s.inFlight.eraseIdx position }
  | .setImage =>
    match s.images with
    | [] => none
    | c :: q => some (runClosure c { s with images := q })
  | .evict key => some { s with imageCache := Function.update s.imageCache key none }

end Scene

def scene [DecidableEq V] (store : TeamStore ρ) (database : ρ)
    (service : Publisher Executor (List TeamNetworkModel) NetworkPlataformError)
    (platform : ImagePlatform D I) : Transition.System (Scene ρ V I) (SceneLabel V D) where
  init :=
    { teams := (teamsScreen store database service).init
      cells := fun _ => .init
      ready := fun _ => true
      dequeued := []
      details := []
      viewControllers := []
      imageCache := fun _ => none
      inFlight := []
      images := [] }
  step := Scene.step store service platform

/-! ## What a step does -/

namespace Scene

variable {store : TeamStore ρ} {database : ρ}
  {service : Publisher Executor (List TeamNetworkModel) NetworkPlataformError}
  {platform : ImagePlatform D I}

def selected (s : Screen ρ) : ScreenLabel → List TeamModel
  | .select row => (TeamsPresenterImp.eventHandler s.teamsModels (.elementSelected row)).toList
  | .deliver | .execute _ | .release => []

theorem screen_step_opened {s t : Screen ρ} {l : ScreenLabel}
    (h : Screen.step store service s l = some t) : t.opened = s.opened ++ selected s l := by
  unfold selected
  cases l with
  | deliver =>
    rw [List.append_nil]
    simp only [Screen.step] at h
    split at h
    · cases h
    · next e rest _ =>
      cases h
      cases e with
      | value vs =>
        rw [Screen.receive_value]
      | completion c =>
        cases c with
        | finished => rw [Screen.receive_finished]
        | failure e =>
          rw [Screen.receive_failure, Screen.configureViewController_run]
          split
          · split <;> rfl
          · rfl
  | execute commits =>
    rw [List.append_nil]
    simp only [Screen.step] at h
    split at h
    · cases h
    · next closure q _ =>
      cases h
      cases closure with
      | save domainModels => rfl
      | showContent viewModel emission =>
        rw [Screen.runClosure, Screen.configureViewController_run]
        split <;> rfl
  | select row =>
    simp only [Screen.step, Screen.selectRow] at h
    split at h
    · obtain ⟨team, hteam, rfl⟩ := Option.map_eq_some_iff.1 h
      simp only [hteam, Option.toList_some]
    · cases h
  | release =>
    cases h
    rw [List.append_nil]

inductive Next [DecidableEq V] (store : TeamStore ρ)
    (service : Publisher Executor (List TeamNetworkModel) NetworkPlataformError)
    (platform : ImagePlatform D I) (s : Scene ρ V I) : SceneLabel V D → Scene ρ V I → Prop where
  | teams (l : ScreenLabel) (teams : Screen ρ)
      (hstep : Screen.step store service s.teams l = some teams)
      (hopened : teams.opened = s.teams.opened) :
      Next store service platform s (.teams l) { s with teams }
  | select (row : Nat) (team : TeamModel) (teams : Screen ρ)
      (hstep : Screen.step store service s.teams (.select row) = some teams)
      (hopened : teams.opened = s.teams.opened ++ [team]) :
      Next store service platform s (.teams (.select row))
        (TeamsRouterImp.teamSelected platform team { s with teams })
  | cellForRow (cell : V) (row : Nat) (viewModel : TeamCell.ViewModel)
      (hready : s.ready cell = true)
      (hrow : s.teams.view.cellsViewModels[row]? = some viewModel) :
      Next store service platform s (.cellForRow cell row) (s.cellForRow platform cell viewModel)
  | prepareForReuse (cell : V) :
      Next store service platform s (.prepareForReuse cell) (s.prepareForReuse cell)
  | back (hne : s.viewControllers ≠ []) :
      Next store service platform s .back
        { s with viewControllers := s.viewControllers.dropLast }
  | respond (position : Nat) (data : Option D) (response : Option URLResponse)
      (error : Option URLError) (d : Download (LogoOwner V))
      (hget : s.inFlight[position]? = some d) :
      Next store service platform s (.respond position data response error)
        (respond platform d data response error
          { s with inFlight := s.inFlight.eraseIdx position })
  | setImage (c : ImageClosure (LogoOwner V) I) (q : List (ImageClosure (LogoOwner V) I))
      (hq : s.images = c :: q) :
      Next store service platform s .setImage (runClosure c { s with images := q })
  | evict (key : String) :
      Next store service platform s (.evict key)
        { s with imageCache := Function.update s.imageCache key none }

theorem next_of_step [DecidableEq V] {s t : Scene ρ V I} {l : SceneLabel V D}
    (h : s.step store service platform l = some t) : Next store service platform s l t := by
  cases l with
  | teams l =>
    simp only [step] at h
    obtain ⟨teams, hteams, h⟩ := Option.bind_eq_some_iff.1 h
    have hopened := screen_step_opened hteams
    cases l with
    | select row =>
      obtain ⟨team, hteam, h⟩ := Option.bind_eq_some_iff.1 h
      cases h
      simp only [selected, hteam] at hopened
      exact .select row team teams hteams hopened
    | deliver | execute | release =>
      cases h
      exact .teams _ teams hteams (hopened.trans (List.append_nil _))
  | cellForRow cell row =>
    simp only [step] at h
    split at h
    · next hready =>
      obtain ⟨viewModel, hrow, rfl⟩ := Option.map_eq_some_iff.1 h
      exact .cellForRow cell row viewModel hready hrow
    · cases h
  | prepareForReuse cell =>
    cases h
    exact .prepareForReuse cell
  | back =>
    simp only [step] at h
    split at h
    · cases h
    · next hq =>
      cases h
      exact .back (by rw [hq]; exact List.cons_ne_nil _ _)
  | respond position data response error =>
    simp only [step] at h
    obtain ⟨d, hget, h⟩ := Option.bind_eq_some_iff.1 h
    cases h
    exact .respond position data response error d hget
  | setImage =>
    simp only [step] at h
    split at h
    · cases h
    · next c q hq =>
      cases h
      exact .setImage c q hq
  | evict key =>
    cases h
    exact .evict key

/-! ## The teams screen of a scene -/

def teamsLabels : SceneLabel V D → List ScreenLabel
  | .teams l => [l]
  | .cellForRow .. | .prepareForReuse _ | .back | .respond .. | .setImage | .evict _ => []

theorem setImage_teams [DecidableEq V] (owner : LogoOwner V) (image : UIImage I)
    (s : Scene ρ V I) : (setImage owner image s).teams = s.teams := by
  cases owner <;> rfl

theorem respond_teams (d : Download (LogoOwner V)) (data : Option D)
    (response : Option URLResponse) (error : Option URLError) (s : Scene ρ V I) :
    (respond platform d data response error s).teams = s.teams := by
  unfold respond
  split <;> rfl

/-- **The teams screen of a scene runs as on its own**: what holds of every run of
the screen holds in the app, whatever its table, its logos and its details do. -/
theorem teams_run [DecidableEq V] {ls : List (SceneLabel V D)} {s : Scene ρ V I}
    (h : (scene store database service platform).run
      (scene store database service platform).init ls = some s) :
    (teamsScreen store database service).run (teamsScreen store database service).init
      (ls.flatMap teamsLabels) = some s.teams := by
  obtain ⟨teams, hrun, rfl⟩ := Transition.System.run_simulates
    (N := teamsScreen store database service) (R := fun s teams => s.teams = teams) teamsLabels
    (fun s teams l t heq ht => by
      subst heq
      cases next_of_step ht with
      | teams l teams hstep => exact ⟨_, Transition.System.run_cons.2 ⟨_, hstep, rfl⟩, rfl⟩
      | select row team teams hstep =>
        exact ⟨_, Transition.System.run_cons.2 ⟨_, hstep, rfl⟩, rfl⟩
      | cellForRow | prepareForReuse | back | evict => exact ⟨_, rfl, rfl⟩
      | respond position data response error d hget => exact ⟨_, rfl, respond_teams ..⟩
      | setImage c q hq => exact ⟨_, rfl, setImage_teams ..⟩)
    rfl h
  exact hrun

theorem teams_reachable [DecidableEq V] {s : Scene ρ V I}
    (h : (scene (D := D) store database service platform).Reachable s) :
    (teamsScreen store database service).Reachable s.teams :=
  let ⟨_, hls⟩ := h
  ⟨_, teams_run hls⟩

/-! ## What cells and details screens say -/

def row [DecidableEq V] (s : Scene ρ V I) (cell : V) : Option TeamCell.ViewModel :=
  (Keyed.latest Prod.fst cell s.dequeued).map Prod.snd

def CellShows (cell : TeamCell I) (viewModel : TeamCell.ViewModel) : Prop :=
  cell.nameLabel = some viewModel.name ∧
  cell.abbreviatedNameLabel = some viewModel.abbreviatedName ∧
  cell.accessibilityIdentifier = some ("teamCell" ++ viewModel.abbreviatedName)

/-- What the labels of a scene say: a cell is blank, or has the texts of its last
row; every details screen shows the team it was pushed for, and the stack holds some
of these screens in the order they were pushed. -/
structure Labelled [DecidableEq V] (s : Scene ρ V I) : Prop where
  blank : ∀ cell, s.ready cell = true →
    (s.cells cell).nameLabel = none ∧ (s.cells cell).abbreviatedNameLabel = none
  configured : ∀ cell, s.ready cell = false →
    ∃ viewModel, s.row cell = some viewModel ∧ CellShows (s.cells cell) viewModel
  details : List.Forall₂ TeamDetailsViewControllerImp.ShowsTeam s.details s.teams.opened
  stack : List.Sublist s.viewControllers (List.range s.details.length)

section Labelled

variable [DecidableEq V] {s t : Scene ρ V I} {l : SceneLabel V D}

theorem row_concat (dequeued : List (V × TeamCell.ViewModel)) (cell other : V)
    (viewModel : TeamCell.ViewModel) :
    (Keyed.latest Prod.fst other (dequeued ++ [(cell, viewModel)])).map Prod.snd =
      if other = cell then some viewModel
      else (Keyed.latest Prod.fst other dequeued).map Prod.snd := by
  rw [Keyed.latest_append]
  by_cases heq : other = cell
  · simp [Keyed.latest, heq]
  · simp [Keyed.latest, heq, Ne.symm heq]

theorem labelled_init : Labelled (scene (V := V) store database service platform).init where
  blank := fun _ _ => ⟨rfl, rfl⟩
  configured := nofun
  details := by
    have hopened : (teamsScreen store database service).init.opened = [] := by
      rw [Screen.init_eq]
    show List.Forall₂ _ [] (teamsScreen store database service).init.opened
    rw [hopened]
    exact .nil
  stack := List.Sublist.refl _

theorem forall₂_modify {α β : Type} {R : α → β → Prop} {f : α → α}
    (hf : ∀ a b, R a b → R (f a) b) {as : List α} {bs : List β} (h : List.Forall₂ R as bs) :
    ∀ position, List.Forall₂ R (as.modify position f) bs := by
  induction h with
  | nil => intro position; simp
  | cons hab hrest ih =>
    intro position
    cases position with
    | zero => exact .cons (hf _ _ hab) hrest
    | succ position => exact .cons hab (ih position)

theorem Labelled.setImage (h : s.Labelled) (owner : LogoOwner V) (image : UIImage I) :
    (setImage owner image s).Labelled := by
  cases owner with
  | cell cell =>
    refine ⟨fun other hready => ?_, fun other hready => ?_, h.details, h.stack⟩
    · have hother := h.blank other hready
      unfold Scene.setImage
      by_cases heq : other = cell
      · subst heq
        simpa using hother
      · simpa [heq] using hother
    · obtain ⟨viewModel, hrow, hshows⟩ := h.configured other hready
      refine ⟨viewModel, hrow, ?_⟩
      unfold Scene.setImage
      by_cases heq : other = cell
      · subst heq
        simpa [CellShows] using hshows
      · simpa [heq] using hshows
  | details position =>
    refine ⟨h.blank, h.configured, ?_, ?_⟩
    · refine forall₂_modify ?_ h.details position
      exact fun _ _ hshows => hshows
    · simpa [Scene.setImage] using h.stack

theorem Labelled.teamSelected (h : s.Labelled) (team : TeamModel) (teams : Screen ρ)
    (hopened : teams.opened = s.teams.opened ++ [team]) :
    (TeamsRouterImp.teamSelected platform team { s with teams }).Labelled := by
  refine ⟨h.blank, h.configured, ?_, ?_⟩
  · show List.Forall₂ _ (s.details ++ [_]) teams.opened
    rw [hopened]
    exact List.rel_append h.details (.cons (assemble_showsTeam ..) .nil)
  · show List.Sublist (s.viewControllers ++ [s.details.length])
      (List.range (s.details ++ [_]).length)
    rw [List.length_append, List.length_singleton, List.range_succ]
    exact h.stack.append (List.Sublist.refl _)

theorem Labelled.cellForRow (h : s.Labelled) (cell : V) (viewModel : TeamCell.ViewModel) :
    (s.cellForRow platform cell viewModel).Labelled := by
  refine ⟨fun other hready => ?_, fun other hready => ?_, h.details, h.stack⟩
  · by_cases heq : other = cell
    · simp [Scene.cellForRow, heq] at hready
    · simp only [Scene.cellForRow, Function.update_of_ne heq] at hready ⊢
      exact h.blank other hready
  · unfold row
    simp only [Scene.cellForRow, row_concat]
    by_cases heq : other = cell
    · refine ⟨viewModel, if_pos heq, ?_⟩
      rw [heq, Function.update_self]
      exact ⟨rfl, rfl, rfl⟩
    · simp only [Scene.cellForRow, Function.update_of_ne heq] at hready ⊢
      rw [if_neg heq]
      exact h.configured other hready

theorem Labelled.prepareForReuse (h : s.Labelled) (cell : V) :
    (s.prepareForReuse cell).Labelled := by
  refine ⟨fun other hready => ?_, fun other hready => ?_, h.details, h.stack⟩
  · by_cases heq : other = cell
    · simp [Scene.prepareForReuse, TeamCell.prepareForReuse, heq]
    · simp only [Scene.prepareForReuse, Function.update_of_ne heq] at hready ⊢
      exact h.blank other hready
  · by_cases heq : other = cell
    · simp [Scene.prepareForReuse, heq] at hready
    · simp only [Scene.prepareForReuse, Function.update_of_ne heq] at hready ⊢
      exact h.configured other hready

theorem Labelled.next (h : s.Labelled) (hn : Next store service platform s l t) : t.Labelled := by
  cases hn with
  | teams l teams hstep hopened =>
    exact ⟨h.blank, h.configured, hopened ▸ h.details, h.stack⟩
  | select row team teams hstep hopened => exact h.teamSelected team teams hopened
  | cellForRow cell row viewModel => exact h.cellForRow cell viewModel
  | prepareForReuse cell => exact h.prepareForReuse cell
  | back => exact ⟨h.blank, h.configured, h.details, (List.dropLast_sublist _).trans h.stack⟩
  | respond position data response error d hget =>
    unfold respond
    split <;> exact ⟨h.blank, h.configured, h.details, h.stack⟩
  | setImage c q hq =>
    refine Labelled.setImage ?_ c.cell c.image
    exact ⟨h.blank, h.configured, h.details, h.stack⟩
  | evict key => exact ⟨h.blank, h.configured, h.details, h.stack⟩

theorem reachable_labelled (h : (scene (D := D) store database service platform).Reachable s) :
    s.Labelled :=
  h.invariant labelled_init fun _ _ _ hs ht => hs.next (next_of_step ht)

end Labelled

/-! ## From the response to the screen -/

section Response

open TeamsPresenterImp

variable [DecidableEq V]

theorem networkOutcome_of_spelled {t : DataTaskOutcome} {elements : List Json}
    {models : List TeamNetworkModel} (ht : t.HasElements elements)
    (hmodels : List.Forall₂ TeamNetworkModel.SpelledBy elements models) :
    t.networkOutcome = .success models := by
  unfold DataTaskOutcome.networkOutcome
  rw [DataTaskOutcome.accepted_eq_some.2 ⟨elements, ht, hmodels⟩]

theorem networkOutcome_of_not_wellFormed {t : DataTaskOutcome} (h : ¬ t.WellFormed) :
    t.networkOutcome = .failure .unkown := by
  unfold DataTaskOutcome.networkOutcome
  cases ht : t.accepted with
  | none => rfl
  | some models => exact absurd (DataTaskOutcome.exists_accepted_iff.1 ⟨models, ht⟩) h

/-- **From the bytes of the response to the rows on screen.** Let the app run in any
order, with taps, details screens, cells and downloads in between, until its service
completed and the closures of the teams screen are done. If the owner still holds the
screen, it shows the teams that a well-formed response spells, in the order of its
array; if the response is not well formed, it shows the cached teams, and the error
when there are none. -/
theorem scene_shows_response (store : TeamStore ρ) (database : ρ)
    (url : URLComponents → Option String) (urlSession : URLRequest → DataTaskOutcome)
    (action : WebServiceAction) (configuration : WebServiceConfiguration) (request : URLRequest)
    (platform : ImagePlatform D I) (s : Scene ρ V I)
    (hbuild : URLRequestBuilder.build url action configuration = some request)
    (h : (scene (D := D) store database (TeamsWebServiceImp.getTeams url
      ⟨action, configuration, RequestExecuterImp.execute urlSession⟩) platform).Reachable s)
    (halive : s.teams.released = false) (hcompleted : s.teams.subscribed = false)
    (hq : s.teams.mainQueue = []) :
    (∀ elements models, (urlSession request).HasElements elements →
      List.Forall₂ TeamNetworkModel.SpelledBy elements models →
        s.teams.view.visible = ⟨false, none, some (cellsViewModels (asDomainModels models))⟩) ∧
    (¬ (urlSession request).WellFormed →
      s.teams.view.visible =
        if store.get database = [] then
          ⟨false, some (some "Sorry, something went wrong! =("), none⟩
        else ⟨false, none, some (cellsViewModels (store.get database))⟩) := by
  rw [getTeams_of_build hbuild] at h
  have hfinal := Screen.final_visible (teams_reachable h) halive hcompleted hq
  constructor
  · intro elements models helements hmodels
    rw [networkOutcome_of_spelled helements hmodels] at hfinal
    rcases hfinal with ⟨⟨-, e, he⟩, -⟩ | ⟨-, hvisible⟩
    · cases he
    · exact hvisible
  · intro hbad
    rw [networkOutcome_of_not_wellFormed hbad] at hfinal
    rcases hfinal with ⟨hnothing, hvisible⟩ | ⟨hsome, hvisible⟩
    · rw [if_pos hnothing.1]
      exact hvisible
    · rw [if_neg fun hnil => hsome ⟨hnil, .unkown, rfl⟩]
      exact hvisible

/-- The response arrives while the cached team is listed and opened; its two rows then
take the place of the cached one, whose cell is used again. -/
theorem scene_shows_twoTeams :
    ∃ s : Scene Realm Unit Unit, (scene (D := Unit) TeamsRealmRepository.store Screen.dallasRealm
        (TeamsWebServiceImp.getTeams Screen.overwatchLeagueURL
          (createTeamsWebService fun _ => .success twoTeamsBody ⟨some 200, none⟩))
        Gallery.anyImage).Reachable s ∧
      s.details.length = 1 ∧ s.row () = some ⟨"bos.png", "Boston Uprising", "BOS"⟩ ∧
      s.teams.view.visible = ⟨false, none, some [⟨"bos.png", "Boston Uprising", "BOS"⟩,
        ⟨"dal.png", "Dallas Fuel", "DAL"⟩]⟩ := by
  let M : Transition.System (Scene Realm Unit Unit) (SceneLabel Unit Unit) :=
    scene TeamsRealmRepository.store Screen.dallasRealm (TeamsWebServiceImp.getTeams
      Screen.overwatchLeagueURL
      (createTeamsWebService fun _ => .success twoTeamsBody ⟨some 200, none⟩)) Gallery.anyImage
  obtain ⟨s, hs, halive, hcompleted, hq, hdetails, hrow⟩ : ∃ s, M.run M.init
      [.teams (.execute true), .cellForRow () 0, .teams (.select 0), .teams .deliver,
        .teams (.execute true), .teams (.execute true), .teams .deliver, .prepareForReuse (),
        .cellForRow () 0] = some s ∧
      s.teams.released = false ∧ s.teams.subscribed = false ∧ s.teams.mainQueue = [] ∧
      s.details.length = 1 ∧ s.row () = some ⟨"bos.png", "Boston Uprising", "BOS"⟩ :=
    ⟨_, rfl, rfl, rfl, rfl, rfl, rfl⟩
  have hshows := scene_shows_response TeamsRealmRepository.store Screen.dallasRealm
    Screen.overwatchLeagueURL (fun _ => .success twoTeamsBody ⟨some 200, none⟩)
    WebServiceActions.GetTeams OverwatchLeagueWebServiceConfiguration
    ⟨"https://api.overwatchleague.com/v2/teams", "GET"⟩ Gallery.anyImage s rfl ⟨_, hs⟩ halive
    hcompleted hq
  exact ⟨s, ⟨_, hs⟩, hdetails, hrow,
    hshows.1 _ _ (twoTeams_hasElements _ rfl) twoTeams_spelled⟩

end Response

end Scene

end OverwatchTeams
