import OverwatchTeams.Domain.Models

/-!
# The teams view

`TeamsViewImp.configure` changes three widgets by three independent
conditionals. A loading state resets all of them. An error state leaves the
table as it was and a content state leaves the error label as it was, and on a
fresh view both are visible. So what is seen is a function of the last state
only when that state is `.loading` (`configure_last_state_iff`), and the screens
of the app, which start from `.loading`, see the last content or the error
(`visible_content`, `visible_error`).
-/

namespace OverwatchTeams

/-! ## View models -/

structure TeamCell.ViewModel where
  logoAddress : String
  name : String
  abbreviatedName : String
  deriving DecidableEq, Repr

structure TeamsViewModel where
  isLoading : Bool
  errorMessage : Option String
  cellsViewModels : Option (List TeamCell.ViewModel)
  deriving DecidableEq, Repr

namespace TeamsViewModel

inductive State where
  | loading
  | showError (errorMessage : String)
  | showContent (cellsViewModel : List TeamCell.ViewModel)
  deriving DecidableEq, Repr

def init : State → TeamsViewModel
  | .loading => { isLoading := true, errorMessage := none, cellsViewModels := none }
  | .showError errorMessage =>
    { isLoading := false, errorMessage := some errorMessage, cellsViewModels := none }
  | .showContent cellsViewModel =>
    { isLoading := false, errorMessage := none, cellsViewModels := some cellsViewModel }

end TeamsViewModel

/-! ## The view -/

structure UILabel where
  text : Option String
  isHidden : Bool
  deriving DecidableEq, Repr

/-- A table; `rows` is what its data source had at the last `reloadData`. -/
structure UITableView where
  rows : List TeamCell.ViewModel
  isHidden : Bool
  deriving DecidableEq, Repr

structure TeamsViewImp where
  /-- Whether `activityIndication` is animating; it hides itself when it is not. -/
  isAnimating : Bool
  errorMessageLabel : UILabel
  tableView : UITableView
  cellsViewModels : List TeamCell.ViewModel
  deriving DecidableEq, Repr

namespace TeamsViewImp

def init : TeamsViewImp where
  isAnimating := false
  errorMessageLabel := { text := none, isHidden := false }
  tableView := { rows := [], isHidden := false }
  cellsViewModels := []

def configure (viewModel : TeamsViewModel) (v : TeamsViewImp) : TeamsViewImp :=
  let v :=
    if viewModel.isLoading then
      { v with
        isAnimating := true
        errorMessageLabel := { v.errorMessageLabel with isHidden := true }
        tableView := { v.tableView with isHidden := true } }
    else { v with isAnimating := false }
  let v :=
    match viewModel.errorMessage with
    | some errorMessage =>
      { v with errorMessageLabel := { text := some errorMessage, isHidden := false } }
    | none => v
  match viewModel.cellsViewModels with
  | some cellsViewModels =>
    { v with
      cellsViewModels := cellsViewModels
      tableView := { rows := cellsViewModels, isHidden := false } }
  | none => v

def configureAll (v : TeamsViewImp) (states : List TeamsViewModel.State) : TeamsViewImp :=
  states.foldl (fun v state => v.configure (.init state)) v

/-- What a user sees: the loader, the text of the error label if it is visible,
and the rows of the table if it is visible. -/
structure Visible where
  loader : Bool
  error : Option (Option String)
  table : Option (List TeamCell.ViewModel)
  deriving DecidableEq, Repr

def visible (v : TeamsViewImp) : Visible where
  loader := v.isAnimating
  error := if v.errorMessageLabel.isHidden then none else some v.errorMessageLabel.text
  table := if v.tableView.isHidden then none else some v.tableView.rows

def Visible.Overlap (s : Visible) : Prop := s.error.isSome ∧ s.table.isSome

def Visible.OneMode (s : Visible) : Prop :=
  (s.loader = true ∧ s.error = none ∧ s.table = none) ∨
  (s.loader = false ∧ s.error.isSome ∧ s.table = none) ∨
  (s.loader = false ∧ s.error = none ∧ s.table.isSome)

theorem configureAll_append (v : TeamsViewImp) (xs ys : List TeamsViewModel.State) :
    v.configureAll (xs ++ ys) = (v.configureAll xs).configureAll ys := List.foldl_append

theorem configureAll_snoc (v : TeamsViewImp) (xs : List TeamsViewModel.State)
    (last : TeamsViewModel.State) :
    v.configureAll (xs ++ [last]) = (v.configureAll xs).configure (.init last) :=
  configureAll_append v xs [last]

/-! ## Screens that start from `.loading` -/

theorem configureAll_contents (v : TeamsViewImp) (contents : List (List TeamCell.ViewModel))
    (cells : List TeamCell.ViewModel) :
    v.configureAll ((contents ++ [cells]).map .showContent) =
      v.configure (.init (.showContent cells)) := by
  induction contents generalizing v with
  | nil => rfl
  | cons c contents ih => exact ih (v.configure (.init (.showContent c)))

theorem visible_loading : (init.configureAll [.loading]).visible = ⟨true, none, none⟩ := rfl

theorem visible_content (contents : List (List TeamCell.ViewModel))
    (cells : List TeamCell.ViewModel) :
    (init.configureAll (.loading :: (contents ++ [cells]).map .showContent)).visible =
      ⟨false, none, some cells⟩ :=
  congrArg visible (configureAll_contents (init.configure (.init .loading)) contents cells)

theorem visible_error (m : String) :
    (init.configureAll [.loading, .showError m]).visible = ⟨false, some (some m), none⟩ := rfl

/-! ## Arbitrary histories -/

/-- The states hold a `.loading` after which no state `shows`. -/
def QuietSinceLoading (shows : TeamsViewModel.State → Prop) (states : List TeamsViewModel.State) :
    Prop :=
  ∃ before after, states = before ++ .loading :: after ∧ ∀ state ∈ after, ¬ shows state

theorem quietSinceLoading_cons {shows : TeamsViewModel.State → Prop} {state : TeamsViewModel.State}
    {states : List TeamsViewModel.State} :
    QuietSinceLoading shows (state :: states) ↔
      (state = .loading ∧ ∀ st ∈ states, ¬ shows st) ∨ QuietSinceLoading shows states := by
  constructor
  · rintro ⟨before, after, h, hafter⟩
    cases before with
    | nil => cases h; exact .inl ⟨rfl, hafter⟩
    | cons _ before => cases h; exact .inr ⟨before, after, rfl, hafter⟩
  · rintro (⟨rfl, h⟩ | ⟨before, after, rfl, hafter⟩)
    · exact ⟨[], states, rfl, h⟩
    · exact ⟨state :: before, after, rfl, hafter⟩

/-- A widget that `.loading` hides, that the states with `shows` bring back and
that the others leave alone is hidden exactly after quiet histories, or when it
was hidden and nothing brought it back. -/
theorem hidden_iff (hidden : TeamsViewImp → Bool) (shows : TeamsViewModel.State → Prop)
    (hquiet : ¬ shows .loading)
    (hload : ∀ v : TeamsViewImp, hidden (v.configure (.init .loading)) = true)
    (hshow : ∀ (v : TeamsViewImp) state, shows state → hidden (v.configure (.init state)) = false)
    (hkeep : ∀ (v : TeamsViewImp) state, state ≠ .loading → ¬ shows state →
      hidden (v.configure (.init state)) = hidden v)
    (states : List TeamsViewModel.State) (v : TeamsViewImp) :
    hidden (v.configureAll states) = true ↔
      QuietSinceLoading shows states ∨ (hidden v = true ∧ ∀ state ∈ states, ¬ shows state) := by
  induction states generalizing v with
  | nil => simp [configureAll, QuietSinceLoading]
  | cons state states ih =>
    have hcons : v.configureAll (state :: states) =
      (v.configure (.init state)).configureAll states := rfl
    rw [hcons, ih, quietSinceLoading_cons, List.forall_mem_cons]
    by_cases hl : state = .loading
    · subst hl
      rw [hload]
      tauto
    · by_cases hs : shows state
      · rw [hshow v state hs]
        tauto
      · rw [hkeep v state hl hs]
        tauto

/-- **When the error label and the table overlap**: when each of them was brought
back, or never hidden, since the last `.loading`. -/
theorem overlap_iff (states : List TeamsViewModel.State) :
    (init.configureAll states).visible.Overlap ↔
      ¬ QuietSinceLoading (fun state => ∃ m, state = .showError m) states ∧
      ¬ QuietSinceLoading (fun state => ∃ cells, state = .showContent cells) states := by
  have hlabel := hidden_iff (fun v => v.errorMessageLabel.isHidden)
    (fun state => ∃ m, state = .showError m) (by simp) (fun v => rfl)
    (by rintro v _ ⟨m, rfl⟩; rfl)
    (fun v state hl hs => by
      cases state with
      | loading => exact absurd rfl hl
      | showError m => exact absurd ⟨m, rfl⟩ hs
      | showContent cells => rfl) states init
  have htable := hidden_iff (fun v => v.tableView.isHidden)
    (fun state => ∃ cells, state = .showContent cells) (by simp) (fun v => rfl)
    (by rintro v _ ⟨cells, rfl⟩; rfl)
    (fun v state hl hs => by
      cases state with
      | loading => exact absurd rfl hl
      | showError m => rfl
      | showContent cells => exact absurd ⟨cells, rfl⟩ hs) states init
  -- Nothing is hidden on a fresh view.
  rw [or_iff_left (by rintro ⟨h, -⟩; cases h)] at hlabel htable
  rw [← hlabel, ← htable]
  unfold Visible.Overlap visible
  split <;> split <;> simp [*]

/-- **When the last state decides.** After any states, what is seen is what the
last state alone shows on a fresh view, without the error label and the table
together, if and only if that state is `.loading`. -/
theorem configure_last_state_iff (history : List TeamsViewModel.State)
    (last : TeamsViewModel.State) :
    ((init.configureAll (history ++ [last])).visible = (init.configureAll [last]).visible ∧
      ¬ (init.configureAll (history ++ [last])).visible.Overlap) ↔ last = .loading := by
  rw [configureAll_snoc]
  cases last with
  | loading =>
    refine ⟨fun _ => rfl, fun _ => ⟨rfl, ?_⟩⟩
    rintro ⟨h, -⟩
    cases h
  | showError m =>
    -- On a fresh view the error stands over an empty table that is visible.
    refine ⟨fun ⟨heq, hnot⟩ => (hnot ?_).elim, nofun⟩
    rw [heq]
    exact ⟨rfl, rfl⟩
  | showContent cells =>
    -- On a fresh view the table stands over a label without text that is visible.
    refine ⟨fun ⟨heq, hnot⟩ => (hnot ?_).elim, nofun⟩
    rw [heq]
    exact ⟨rfl, rfl⟩

/-- An error, then content: the error label stays on top of the table. -/
theorem error_then_content_overlaps :
    ¬ ∀ (history : List TeamsViewModel.State) (last : TeamsViewModel.State),
      (init.configureAll (history ++ [last])).visible = (init.configureAll [last]).visible ∧
        ¬ (init.configureAll (history ++ [last])).visible.Overlap := by
  intro h
  obtain ⟨heq, -⟩ := h [.showError "Sorry, something went wrong! =("]
    (.showContent [⟨"dal.png", "Dallas Fuel", "DAL"⟩])
  exact absurd heq (by decide)

end TeamsViewImp

end OverwatchTeams
