import Mathlib.Data.List.Basic
import Mathlib.Data.List.InsertIdx

/-!
# Editing a list by position

Three kinds of edits work on a list `xs ++ ys` without moving the positions of
`xs`: changing an element of `xs`, adding at the end, and, from the last one down,
removing elements of `xs`. Here is what many of them make of it.
-/

namespace ListEdits

variable {α β : Type}

/-! ## Inserting in front of what is removed -/

theorem eraseIdx_succ_insertIdx {l : List α} {i : Nat} (h : i < l.length) (a : α) :
    (l.insertIdx i a).eraseIdx (i + 1) = l.set i a := by
  induction l generalizing i with
  | nil => simp at h
  | cons x xs ih =>
    cases i with
    | zero => rfl
    | succ i =>
      rw [List.insertIdx_succ_cons, List.eraseIdx_cons_succ, List.set_cons_succ,
        ih (by simpa using h)]

theorem modify_insertIdx {l : List α} {i : Nat} (h : i ≤ l.length) (a : α) (f : α → α) :
    (l.insertIdx i a).modify i f = l.insertIdx i (f a) := by
  induction l generalizing i with
  | nil =>
    obtain rfl : i = 0 := by simpa using h
    rfl
  | cons x xs ih =>
    cases i with
    | zero => rfl
    | succ i =>
      rw [List.insertIdx_succ_cons, List.modify_succ_cons, ih (by simpa using h),
        List.insertIdx_succ_cons]

/-! ## The last element in the place of another -/

/-- The last element takes the place of the one at `i`. -/
def moveLastOver (i : Nat) (l : List α) : List α :=
  match l.getLast? with
  | none => l
  | some x => (l.set i x).dropLast

/-- **Moving the last element over another** removes the other one. -/
theorem moveLastOver_perm {l : List α} {i : Nat} (h : i < l.length) :
    (moveLastOver i l).Perm (l.eraseIdx i) := by
  have hne : l ≠ [] := List.ne_nil_of_length_pos (by omega)
  obtain ⟨init, x, rfl⟩ : ∃ init x, l = init ++ [x] :=
    ⟨l.dropLast, l.getLast hne, (List.dropLast_append_getLast hne).symm⟩
  simp only [moveLastOver, List.getLast?_append, List.getLast?_singleton, Option.some_or]
  rw [List.length_append, List.length_singleton] at h
  by_cases hi : i < init.length
  · rw [List.set_append_left _ _ hi, List.dropLast_concat, List.eraseIdx_append_of_lt_length hi]
    rw [List.set_eq_take_append_cons_drop, if_pos hi, List.eraseIdx_eq_take_drop_succ]
    have hmiddle : (init.take i ++ x :: init.drop (i + 1)).Perm
        (x :: (init.take i ++ init.drop (i + 1))) := List.perm_middle
    exact hmiddle.trans (List.perm_append_singleton x _).symm
  · obtain rfl : i = init.length := by omega
    rw [List.set_append_right _ _ (Nat.le_refl _),
      List.eraseIdx_append_of_length_le (Nat.le_refl _)]
    simp

/-! ## Changes in place -/

theorem modify_append {xs ys : List α} {i : Nat} (h : i < xs.length) (f : α → α) :
    (xs ++ ys).modify i f = xs.modify i f ++ ys := by
  induction xs generalizing i with
  | nil => simp at h
  | cons x xs ih =>
    cases i with
    | zero => rfl
    | succ i => simp only [List.cons_append, List.modify_succ_cons, ih (by simpa using h)]

def modifyAll (pos : β → Nat) (f : β → α → α) (bs : List β) (xs : List α) : List α :=
  bs.foldl (fun xs b => xs.modify (pos b) (f b)) xs

variable {pos : β → Nat} {f : β → α → α}

theorem length_modifyAll (bs : List β) (xs : List α) :
    (modifyAll pos f bs xs).length = xs.length := by
  induction bs generalizing xs with
  | nil => rfl
  | cons b bs ih => rw [modifyAll, List.foldl_cons, ← modifyAll, ih, List.length_modify]

/-- **Changes at one place do not see the others.** -/
theorem getElem?_modifyAll (bs : List β) (xs : List α) (i : Nat) :
    (modifyAll pos f bs xs)[i]? =
      xs[i]?.map fun x => (bs.filter fun b => pos b = i).foldl (fun x b => f b x) x := by
  induction bs generalizing xs with
  | nil => simp [modifyAll]
  | cons b bs ih =>
    rw [modifyAll, List.foldl_cons, ← modifyAll, ih, List.getElem?_modify, Option.map_eq_map,
      Option.map_map]
    by_cases h : pos b = i
    · simp [h, Function.comp_def]
    · simp [h, Function.comp_def]

/-! ## Removals from the end -/

/-- The elements at positions that are not removed. -/
def keep (removed : List Nat) (xs : List α) : List α :=
  (xs.zipIdx.filter fun x => x.2 ∉ removed).map Prod.fst

theorem keep_append (removed : List Nat) (xs ys : List α) (h : ∀ i ∈ removed, i < xs.length) :
    keep removed (xs ++ ys) = keep removed xs ++ ys := by
  have hkeep : (ys.zipIdx xs.length).filter (fun x => x.2 ∉ removed) = ys.zipIdx xs.length := by
    rw [List.filter_eq_self]
    intro x hx
    have hle := List.le_snd_of_mem_zipIdx hx
    simp only [decide_eq_true_eq]
    intro hmem
    have := h _ hmem
    omega
  unfold keep
  rw [List.zipIdx_append, List.filter_append, List.map_append]
  simp only [Nat.zero_add]
  rw [hkeep]
  simp

/-- **Removing from the last position down** removes what stood at these positions. -/
theorem foldl_eraseIdx {removed : List Nat} {xs : List α} (hsorted : removed.Pairwise (· > ·))
    (h : ∀ i ∈ removed, i < xs.length) : removed.foldl List.eraseIdx xs = keep removed xs := by
  induction removed generalizing xs with
  | nil => simp [keep]
  | cons i is ih =>
    have hi : i < xs.length := h i List.mem_cons_self
    have hlt := (List.pairwise_cons.1 hsorted).1
    have hsplit : xs = xs.take i ++ xs[i] :: xs.drop (i + 1) := by simp
    have hlen : (xs.take i).length = i := by simp; omega
    have herase : xs.eraseIdx i = xs.take i ++ xs.drop (i + 1) := List.eraseIdx_eq_take_drop_succ ..
    have hsmall : ∀ j ∈ is, j < (xs.take i).length := fun j hj => by
      rw [hlen]; exact hlt j hj
    rw [List.foldl_cons, herase, ih (List.pairwise_cons.1 hsorted).2 (fun j hj => by
      have := hsmall j hj
      rw [List.length_append]
      omega), keep_append _ _ _ hsmall]
    conv_rhs => rw [hsplit]
    unfold keep
    rw [List.zipIdx_append, List.filter_append, List.map_append, hlen, List.zipIdx_cons]
    congr 1
    · congr 1
      refine List.filter_congr fun x hx => ?_
      have hne : x.2 ≠ i := by
        have := List.snd_lt_of_mem_zipIdx hx
        omega
      simp [hne]
    · have hrest : ((xs.drop (i + 1)).zipIdx (0 + i + 1)).filter (fun x => x.2 ∉ i :: is) =
          (xs.drop (i + 1)).zipIdx (0 + i + 1) := by
        rw [List.filter_eq_self]
        intro x hx
        have hle := List.le_snd_of_mem_zipIdx hx
        simp only [decide_eq_true_eq, List.mem_cons, not_or]
        refine ⟨by omega, fun hmem => ?_⟩
        have := hlt _ hmem
        omega
      rw [List.filter_cons_of_neg (by simp), hrest]
      simp

theorem mem_keep {removed : List Nat} {xs : List α} {x : α} :
    x ∈ keep removed xs ↔ ∃ i, xs[i]? = some x ∧ i ∉ removed := by
  unfold keep
  simp only [List.mem_map, List.mem_filter, decide_eq_true_eq, Prod.exists, exists_and_right,
    exists_eq_right]
  refine exists_congr fun i => ?_
  rw [List.mem_zipIdx_iff_getElem?]

theorem nodup_map_keep {f : α → β} {removed : List Nat} {xs ys : List α} (hxs : (xs.map f).Nodup)
    (h : ∀ i y, ys[i]? = some y → i ∉ removed → ∃ x, xs[i]? = some x ∧ f y = f x) :
    ((keep removed ys).map f).Nodup := by
  have hsorted : ys.zipIdx.Pairwise fun a b => a.2 < b.2 := by
    rw [← List.pairwise_map (f := Prod.snd) (R := (· < ·)), List.zipIdx_map_snd]
    exact List.pairwise_lt_range'
  unfold keep
  rw [List.map_map, List.Nodup, List.pairwise_map]
  refine (hsorted.filter _).imp_of_mem fun {a b} ha hb hlt heq => ?_
  have hat : ∀ c ∈ ys.zipIdx.filter fun x => x.2 ∉ removed,
      ∃ x, xs[c.2]? = some x ∧ f c.1 = f x := by
    intro c hc
    obtain ⟨hmem, hkeep⟩ := List.mem_filter.1 hc
    exact h c.2 c.1 (List.mem_zipIdx_iff_getElem?.1 hmem) (by simpa using hkeep)
  obtain ⟨x, hx, hfx⟩ := hat a ha
  obtain ⟨y, hy, hfy⟩ := hat b hb
  -- Two positions of `xs` with one image.
  have hx' : (xs.map f)[a.2]? = some (f x) := by rw [List.getElem?_map, hx, Option.map_some]
  have hy' : (xs.map f)[b.2]? = some (f y) := by rw [List.getElem?_map, hy, Option.map_some]
  have himage : f x = f y := hfx.symm.trans (Eq.trans heq hfy)
  have hlt' : a.2 < (xs.map f).length := (List.getElem?_eq_some_iff.1 hx').1
  have hsame : a.2 = b.2 := (List.getElem?_inj hlt' hxs).1 (by rw [hx', hy', himage])
  exact absurd hlt (by rw [hsame]; exact Nat.lt_irrefl _)

end ListEdits
