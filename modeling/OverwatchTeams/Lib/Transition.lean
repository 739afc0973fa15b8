import Mathlib.Data.List.Basic
import Mathlib.Data.List.Induction

/-!
# Runs of a labelled system

A `System` is a first state and a partial step function: `step s l = none`
says that `l` cannot happen in `s`. `run` takes a list of labels in order,
and a state is `Reachable` when some list leads to it.

Two rules carry the inductions. `Reachable.invariant` is for what holds of
every reachable state. `throughout_iff_within` is for properties that some
runs lose: where one step keeps the property exactly when the step meets `G`,
a run has it in all its states exactly when all its steps meet `G`.

Two total step functions are compared by `agree_iff_last`: where a kind of label
overwrites what is compared, the last label of that kind decides.
-/

namespace Transition

structure System (S L : Type) where
  init : S
  step : S → L → Option S

namespace System

variable {S L : Type} (M : System S L)

def run : S → List L → Option S
  | s, [] => some s
  | s, l :: ls => (M.step s l).bind fun t => run t ls

def Reachable (s : S) : Prop := ∃ ls, M.run M.init ls = some s

def Throughout (P : S → Prop) : S → List L → Prop
  | s, [] => P s
  | s, l :: ls => P s ∧ ∀ t, M.step s l = some t → Throughout P t ls

/-- Every step of the run meets `G`, a condition on the state before it. -/
def Within (G : S → L → Prop) : S → List L → Prop
  | _, [] => True
  | s, l :: ls => G s l ∧ ∀ t, M.step s l = some t → Within G t ls

variable {M}

theorem run_cons {s t : S} {l : L} {ls : List L} :
    M.run s (l :: ls) = some t ↔ ∃ u, M.step s l = some u ∧ M.run u ls = some t := by
  simp only [run, Option.bind_eq_some_iff]

theorem run_append {s t : S} {ls ls' : List L} :
    M.run s (ls ++ ls') = some t ↔ ∃ u, M.run s ls = some u ∧ M.run u ls' = some t := by
  induction ls generalizing s with
  | nil => simp [run]
  | cons l ls ih =>
    simp only [List.cons_append, run_cons, ih]
    constructor
    · rintro ⟨u, hu, v, hv, ht⟩; exact ⟨v, ⟨u, hu, hv⟩, ht⟩
    · rintro ⟨v, ⟨u, hu, hv⟩, ht⟩; exact ⟨u, hu, v, hv, ht⟩

theorem run_invariant {P : S → Prop} (hstep : ∀ s l t, P s → M.step s l = some t → P t) :
    ∀ {ls : List L} {s t : S}, P s → M.run s ls = some t → P t
  | [], s, t, hs, h => by cases h; exact hs
  | l :: ls, s, t, hs, h => by
    obtain ⟨u, hu, ht⟩ := run_cons.1 h
    exact run_invariant hstep (hstep s l u hs hu) ht

/-- The rule for what depends on the labels taken so far. -/
theorem run_history {P : List L → S → Prop}
    (hstep : ∀ done s l t, P done s → M.step s l = some t → P (done ++ [l]) t) :
    ∀ {ls : List L} (done : List L) {s t : S}, P done s → M.run s ls = some t → P (done ++ ls) t
  | [], done, s, t, hs, h => by
    cases h
    rwa [List.append_nil]
  | l :: ls, done, s, t, hs, h => by
    obtain ⟨u, hu, ht⟩ := run_cons.1 h
    have hrest := run_history hstep (done ++ [l]) (hstep done s l u hs hu) ht
    rwa [List.append_assoc, List.singleton_append] at hrest

/-- **Forward simulation.** Where each step is some steps of another system, each run
is a run of it. -/
theorem run_simulates {T K : Type} {N : System T K} {R : S → T → Prop} (tr : L → List K)
    (hstep : ∀ s x l t, R s x → M.step s l = some t → ∃ y, N.run x (tr l) = some y ∧ R t y) :
    ∀ {ls : List L} {s t : S} {x : T}, R s x → M.run s ls = some t →
      ∃ y, N.run x (ls.flatMap tr) = some y ∧ R t y
  | [], s, t, x, hx, h => by
    cases h
    exact ⟨x, rfl, hx⟩
  | l :: ls, s, t, x, hx, h => by
    obtain ⟨u, hu, ht⟩ := run_cons.1 h
    obtain ⟨y, hy, huy⟩ := hstep s x l u hx hu
    obtain ⟨z, hz, htz⟩ := run_simulates tr hstep huy ht
    exact ⟨z, run_append.2 ⟨y, hy, hz⟩, htz⟩

/-- **Work.** Where the steps with `p` take one unit each of what is left, and the others
none, a run has as many of them as it took units. -/
theorem run_work {I : S → Prop} {p : L → Bool} {left : S → Nat}
    (hI : ∀ s l t, I s → M.step s l = some t → I t)
    (hstep : ∀ s l t, I s → M.step s l = some t → (if p l then 1 else 0) + left t = left s) :
    ∀ {ls : List L} {s t : S}, I s → M.run s ls = some t → ls.countP p + left t = left s
  | [], s, t, _, h => by
    cases h
    exact Nat.zero_add _
  | l :: ls, s, t, hs, h => by
    obtain ⟨u, hu, ht⟩ := run_cons.1 h
    have hfirst := hstep s l u hs hu
    have hrest := run_work hI hstep (hI s l u hs hu) ht
    rw [List.countP_cons]
    omega

/-- **No deadlock.** Where some step with `p` can be taken and leaves less while
anything is left, steps with `p` lead to a state with nothing left. -/
theorem exists_run_done {I : S → Prop} {p : L → Prop} {left : S → Nat}
    (hI : ∀ s l t, I s → M.step s l = some t → I t)
    (hstep : ∀ s, I s → left s ≠ 0 → ∃ l t, p l ∧ M.step s l = some t ∧ left t < left s) :
    ∀ {s : S}, I s → ∃ ls t, (∀ l ∈ ls, p l) ∧ M.run s ls = some t ∧ left t = 0 := by
  intro s hs
  generalize hn : left s = n
  induction n using Nat.strongRecOn generalizing s with
  | ind n ih =>
    by_cases hzero : n = 0
    · exact ⟨[], s, nofun, rfl, hn.trans hzero⟩
    · obtain ⟨l, u, hl, hu, hlt⟩ := hstep s hs (hn ▸ hzero)
      obtain ⟨ls, t, hls, ht, hdone⟩ := ih (left u) (hn ▸ hlt) (hI s l u hs hu) rfl
      exact ⟨l :: ls, t, List.forall_mem_cons.2 ⟨hl, hls⟩, run_cons.2 ⟨u, hu, ht⟩, hdone⟩

theorem Reachable.start : M.Reachable M.init := ⟨[], rfl⟩

theorem Reachable.next {s t : S} {l : L} (h : M.Reachable s) (hs : M.step s l = some t) :
    M.Reachable t := by
  obtain ⟨ls, hls⟩ := h
  exact ⟨ls ++ [l], run_append.2 ⟨s, hls, by simp [run, hs]⟩⟩

theorem Reachable.invariant {P : S → Prop} {s : S} (h : M.Reachable s) (h0 : P M.init)
    (hstep : ∀ s l t, P s → M.step s l = some t → P t) : P s :=
  let ⟨_, hls⟩ := h
  run_invariant hstep h0 hls

/-- **The exactness rule.** Under an invariant `I`, let each step from a state
with `P` lead to a state with `P` exactly when it meets `G`. Then a run has `P`
in all its states exactly when all its steps meet `G`. -/
theorem throughout_iff_within {I P : S → Prop} {G : S → L → Prop}
    (hI : ∀ s l t, I s → M.step s l = some t → I t)
    (hP : ∀ s l t, I s → P s → M.step s l = some t → (P t ↔ G s l)) :
    ∀ {ls : List L} {s t : S}, I s → P s → M.run s ls = some t →
      (M.Throughout P s ls ↔ M.Within G s ls)
  | [], s, t, _, hs, _ => ⟨fun _ => trivial, fun _ => hs⟩
  | l :: ls, s, t, hi, hs, h => by
    obtain ⟨u, hu, ht⟩ := run_cons.1 h
    have hstep := hP s l u hi hs hu
    have ih := fun hp => throughout_iff_within hI hP (hI s l u hi hu) hp ht
    have only : ∀ v, M.step s l = some v → v = u := fun v hv => by
      rw [hu] at hv; exact (Option.some.inj hv).symm
    constructor
    · rintro ⟨-, hall⟩
      have hrest := hall u hu
      have hpu : P u := by cases ls <;> first | exact hrest | exact hrest.1
      exact ⟨hstep.1 hpu, fun v hv => only v hv ▸ (ih hpu).1 hrest⟩
    · rintro ⟨hg, hall⟩
      have hpu : P u := hstep.2 hg
      exact ⟨hs, fun v hv => only v hv ▸ (ih hpu).2 (hall u hu)⟩

end System

/-! ## The last label of a kind -/

section Last

variable {S T L : Type} {p : L → Prop}

/-- `l` is the last label of the list with `p`, and `before` is what comes before it. -/
def Last (p : L → Prop) (ls before : List L) (l : L) : Prop :=
  ∃ after, ls = before ++ l :: after ∧ p l ∧ ∀ l' ∈ after, ¬ p l'

theorem not_last_nil {before : List L} {l : L} : ¬ Last p [] before l := by
  rintro ⟨after, h, -⟩
  exact List.append_ne_nil_of_right_ne_nil before (List.cons_ne_nil l after) h.symm

theorem concat_eq_append_cons {ls before after : List L} {last l : L} :
    ls ++ [last] = before ++ l :: after ↔
      (after = [] ∧ before = ls ∧ l = last) ∨
        ∃ after', after = after' ++ [last] ∧ ls = before ++ l :: after' := by
  constructor
  · intro h
    rcases List.eq_nil_or_concat after with rfl | ⟨after', last', rfl⟩
    · obtain ⟨rfl, rfl⟩ := List.append_singleton_inj.1 h
      exact .inl ⟨rfl, rfl, rfl⟩
    · rw [List.concat_eq_append, ← List.cons_append, ← List.append_assoc] at h
      obtain ⟨rfl, rfl⟩ := List.append_singleton_inj.1 h
      exact .inr ⟨after', List.concat_eq_append .., rfl⟩
  · rintro (⟨rfl, rfl, rfl⟩ | ⟨after', rfl, rfl⟩)
    · rfl
    · rw [List.append_assoc, List.cons_append]

theorem last_concat_of_pos {ls before : List L} {last l : L} (h : p last) :
    Last p (ls ++ [last]) before l ↔ before = ls ∧ l = last := by
  refine ⟨fun ⟨after, heq, _, hafter⟩ => ?_, fun ⟨hbefore, hl⟩ => ?_⟩
  · rcases concat_eq_append_cons.1 heq with ⟨-, hlast⟩ | ⟨after', rfl, -⟩
    · exact hlast
    · exact absurd h (hafter last List.mem_concat_self)
  · exact ⟨[], concat_eq_append_cons.2 (.inl ⟨rfl, hbefore, hl⟩), hl ▸ h, nofun⟩

theorem last_concat_of_neg {ls before : List L} {last l : L} (h : ¬ p last) :
    Last p (ls ++ [last]) before l ↔ Last p ls before l := by
  refine ⟨fun ⟨after, heq, hl, hafter⟩ => ?_, fun ⟨after, heq, hl, hafter⟩ => ?_⟩
  · rcases concat_eq_append_cons.1 heq with ⟨-, -, rfl⟩ | ⟨after', rfl, hls⟩
    · exact absurd hl h
    · exact ⟨after', hls, hl, fun l' hl' => hafter l' (List.mem_append_left _ hl')⟩
  · refine ⟨after ++ [last], concat_eq_append_cons.2 (.inr ⟨after, rfl, heq⟩), hl, ?_⟩
    exact List.forall_mem_append.2 ⟨hafter, List.forall_mem_singleton.2 h⟩

/-- **The last-writer rule.** Under an invariant `R` of the two runs, let a label
without `p` keep `A` as it was, and a label with `p` make it true exactly when the
label meets `G`. Then `A`, true at the start, is true after the run exactly when the
last label with `p`, if there is one, meets `G`. -/
theorem agree_iff_last {f : S → L → S} {g : T → L → T} {R A : S → T → Prop} {G : S → L → Prop}
    (hR : ∀ s t l, R s t → R (f s l) (g t l))
    (hkeep : ∀ s t l, ¬ p l → (A (f s l) (g t l) ↔ A s t))
    (hwrite : ∀ s t l, R s t → p l → (A (f s l) (g t l) ↔ G s l))
    {s : S} {t : T} (hrel : R s t) (h : A s t) (ls : List L) :
    A (ls.foldl f s) (ls.foldl g t) ↔
      ∀ before l, Last p ls before l → G (before.foldl f s) l := by
  induction ls using List.reverseRecOn with
  | nil => exact ⟨fun _ _ _ hlast => absurd hlast not_last_nil, fun _ => h⟩
  | append_singleton ls last ih =>
    simp only [List.foldl_append, List.foldl_cons, List.foldl_nil]
    by_cases hp : p last
    · have hrun : R (ls.foldl f s) (ls.foldl g t) :=
        List.foldl_rel hrel fun l _ s t hst => hR s t l hst
      rw [hwrite _ _ _ hrun hp]
      simp only [last_concat_of_pos hp]
      exact ⟨fun hg _ _ ⟨hbefore, hl⟩ => hbefore ▸ hl ▸ hg, fun hall => hall _ _ ⟨rfl, rfl⟩⟩
    · rw [hkeep _ _ _ hp, ih]
      simp only [last_concat_of_neg hp]

end Last

end Transition
