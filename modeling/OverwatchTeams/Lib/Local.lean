import Mathlib.Logic.Function.Basic
import Mathlib.Data.List.Basic

/-!
# Steps that touch one part of a state

A state `g` is seen through its parts `view g k`, and every action of a list works
on the part with its own key: there it has an `effect`, elsewhere none. What a run
does to one part then depends on the actions with that key only, in their order
(`Steps.run`), and whether the run gets through can be decided part by part
(`Ready`).
-/

namespace Local

variable {G K S A E : Type} [DecidableEq K]

/-- The actions get through from the part `s` on: `Ok` holds before each of them. -/
def Ready (effect : A → S → S) (Ok : A → S → Prop) : List A → S → Prop
  | [], _ => True
  | a :: as, s => Ok a s ∧ Ready effect Ok as (effect a s)

def result (effect : A → S → S) (as : List A) (s : S) : S := as.foldl (fun s a => effect a s) s

section Parts

variable {effect : A → S → S} {Ok : A → S → Prop}

theorem result_filter {effect' : A → S → S} (handles : A → Bool)
    (h : ∀ a s, effect' a s = if handles a then effect a s else s) (as : List A) (s : S) :
    result effect' as s = result effect (as.filter handles) s := by
  induction as generalizing s with
  | nil => rfl
  | cons a as ih =>
    by_cases ha : handles a = true
    · rw [List.filter_cons_of_pos ha]
      show result effect' as (effect' a s) = result effect (as.filter handles) (effect a s)
      rw [h, if_pos ha, ih]
    · rw [List.filter_cons_of_neg ha]
      show result effect' as (effect' a s) = _
      rw [h, if_neg ha, ih]

@[simp] theorem result_nil (s : S) : result effect [] s = s := rfl

@[simp] theorem result_cons (a : A) (as : List A) (s : S) :
    result effect (a :: as) s = result effect as (effect a s) := rfl

theorem result_append (as bs : List A) (s : S) :
    result effect (as ++ bs) s = result effect bs (result effect as s) := List.foldl_append

theorem ready_append {as bs : List A} {s : S} :
    Ready effect Ok (as ++ bs) s ↔
      Ready effect Ok as s ∧ Ready effect Ok bs (result effect as s) := by
  induction as generalizing s with
  | nil => simp [Ready]
  | cons a as ih => simp only [List.cons_append, Ready, ih, result_cons, and_assoc]

theorem ready_of_invariant (I : S → Prop) {as : List A} {s : S} (hs : I s)
    (h : ∀ a ∈ as, ∀ s, I s → Ok a s ∧ I (effect a s)) : Ready effect Ok as s := by
  induction as generalizing s with
  | nil => trivial
  | cons a as ih =>
    rw [List.forall_mem_cons] at h
    exact ⟨(h.1 s hs).1, ih (h.1 s hs).2 h.2⟩

theorem ready_of_forall {as : List A} {s : S} (h : ∀ a ∈ as, ∀ s, Ok a s) :
    Ready effect Ok as s :=
  ready_of_invariant (fun _ => True) trivial fun a ha s _ => ⟨h a ha s, trivial⟩

/-- Actions that are possible at the start and do not get in the way of later ones. -/
theorem ready_of_pairwise {as : List A} {s : S} (h : ∀ a ∈ as, Ok a s)
    (hpair : as.Pairwise fun a b => ∀ s, Ok a s → Ok b s → Ok b (effect a s)) :
    Ready effect Ok as s := by
  induction as generalizing s with
  | nil => trivial
  | cons a as ih =>
    have hp := List.pairwise_cons.1 hpair
    have ha := h a List.mem_cons_self
    exact ⟨ha, ih (fun b hb => hp.1 b hb s ha (h b (List.mem_cons_of_mem _ hb))) hp.2⟩

end Parts

theorem foldlM_filter (handles : A → Bool) (step : G → A → Except E G) (as : List A) (g : G) :
    as.foldlM (fun g a => if handles a then step g a else .ok g) g =
      (as.filter handles).foldlM step g := by
  induction as generalizing g with
  | nil => rfl
  | cons a as ih =>
    rw [List.foldlM_cons]
    by_cases h : handles a = true
    · rw [if_pos h, List.filter_cons_of_pos h, List.foldlM_cons]
      exact congrArg _ (funext ih)
    · rw [if_neg h, List.filter_cons_of_neg h]
      exact ih g

/-- Steps that work on one part each. Where `Ok` holds a step gets through, or it fails
with an allowed error, and `Inv` is kept. -/
structure Steps (view : G → K → S) (key : A → K) (effect : A → S → S) (Ok : A → S → Prop)
    (Inv : G → Prop) (Allowed : E → Prop) (step : G → A → Except E G) : Prop where
  step : ∀ g a, Inv g → Ok a (view g (key a)) →
    (∃ e, step g a = .error e ∧ Allowed e) ∨
    ∃ g', step g a = .ok g' ∧ Inv g' ∧
      view g' = Function.update (view g) (key a) (effect a (view g (key a)))

/-- **A run, part by part.** -/
theorem Steps.run {view : G → K → S} {key : A → K} {effect : A → S → S} {Ok : A → S → Prop}
    {Inv : G → Prop} {Allowed : E → Prop} {step : G → A → Except E G}
    (h : Steps view key effect Ok Inv Allowed step) (as : List A) {g : G} (hinv : Inv g)
    (hready : ∀ k, Ready effect Ok (as.filter fun a => key a = k) (view g k)) :
    (∃ e, as.foldlM step g = .error e ∧ Allowed e) ∨
    ∃ g', as.foldlM step g = .ok g' ∧ Inv g' ∧
      ∀ k, view g' k = result effect (as.filter fun a => key a = k) (view g k) := by
  induction as generalizing g with
  | nil => exact .inr ⟨g, rfl, hinv, fun k => rfl⟩
  | cons a as ih =>
    have hself := hready (key a)
    rw [List.filter_cons_of_pos (by simp)] at hself
    rw [List.foldlM_cons]
    rcases h.step g a hinv hself.1 with ⟨e, he, hallowed⟩ | ⟨g', hg', hinv', hview⟩
    · exact .inl ⟨e, by rw [he]; rfl, hallowed⟩
    · have hready' : ∀ k, Ready effect Ok (as.filter fun b => key b = k) (view g' k) := by
        intro k
        rw [hview, Function.update_apply]
        split
        · next hk => rw [hk]; exact hself.2
        · next hk =>
          have := hready k
          rwa [List.filter_cons_of_neg (by simpa using Ne.symm hk)] at this
      have hbind : (step g a >>= fun g => as.foldlM step g) = as.foldlM step g' := by
        rw [hg']; rfl
      rw [hbind]
      rcases ih hinv' hready' with hfail | ⟨g'', hrun, hinv'', hviews⟩
      · exact .inl hfail
      · refine .inr ⟨g'', hrun, hinv'', fun k => ?_⟩
        rw [hviews k, hview, Function.update_apply]
        split
        · next hk => rw [hk, List.filter_cons_of_pos (by simp), result_cons]
        · next hk => rw [List.filter_cons_of_neg (by simpa using Ne.symm hk)]

end Local
