-- SUMMARY: Runs of a partial step function whose steps may be restricted by a condition, and the invariant rules for them.
import Mathlib.Data.List.Basic
import Mathlib.Tactic.Common

/-!
# Runs

A system is a partial function `step : σ → α → Option σ`: the action `a` is
enabled in `s` when `step s a` is defined. A run takes actions one after the
other. Every run carries a condition `ok` on the state and the action of each
of its steps, so that one notion covers both all runs (`ok` is `Unrestricted`)
and the runs that avoid some of the steps.
-/

namespace Interleaving

variable {σ α : Type*}

/-- The condition that every step meets. -/
def Unrestricted : σ → α → Prop := fun _ _ => True

instance : DecidableRel (Unrestricted : σ → α → Prop) := fun _ _ => .isTrue trivial

/-- The actions `as` lead from `s` to the last argument, and each of them is
    taken in a state where `ok` holds of it. -/
inductive Run (step : σ → α → Option σ) (ok : σ → α → Prop) (s : σ) : List α → σ → Prop
  | refl : Run step ok s [] s
  | snoc {as : List α} {t u : σ} {a : α} :
      Run step ok s as t → ok t a → step t a = some u → Run step ok s (as ++ [a]) u

/-- The state the actions lead to, if each of them is enabled and meets `ok`. -/
def exec (step : σ → α → Option σ) (ok : σ → α → Prop) [DecidableRel ok] (s : σ) :
    List α → Option σ
  | [] => some s
  | a :: as => if ok s a then (step s a).bind fun t => exec step ok t as else none

namespace Run

variable {step : σ → α → Option σ} {ok ok' : σ → α → Prop} {s t u : σ} {as bs : List α}

/-! ## Building runs -/

theorem single {a : α} (ha : ok s a) (hs : step s a = some t) : Run step ok s [a] t :=
  .snoc .refl ha hs

theorem trans (h : Run step ok s as t) (h' : Run step ok t bs u) :
    Run step ok s (as ++ bs) u := by
  induction h' with
  | refl => simpa using h
  | snoc _ ha hs ih =>
    rw [← List.append_assoc]
    exact ih.snoc ha hs

theorem cons {a : α} (ha : ok s a) (hs : step s a = some t) (h : Run step ok t as u) :
    Run step ok s (a :: as) u :=
  (single ha hs).trans h

theorem of_exec [DecidableRel ok] (h : exec step ok s as = some t) : Run step ok s as t := by
  induction as generalizing s with
  | nil =>
    cases h
    exact .refl
  | cons a as ih =>
    simp only [exec] at h
    split at h
    · rename_i ha
      obtain ⟨v, hv, hrest⟩ := Option.bind_eq_some_iff.1 h
      exact cons ha hv (ih hrest)
    · cases h

theorem of_isSome [DecidableRel ok] (h : (exec step ok s as).isSome) :
    Run step ok s as ((exec step ok s as).get h) :=
  of_exec (Option.some_get h).symm

/-- A run that is executed to check a property of the state it ends in. -/
theorem exists_of_exec [DecidableRel ok] {P : σ → Prop} [DecidablePred P]
    (h : (exec step ok s as).any fun t => P t) : ∃ t, Run step ok s as t ∧ P t := by
  cases he : exec step ok s as with
  | none =>
    rw [he] at h
    cases h
  | some t =>
    rw [he] at h
    exact ⟨t, of_exec he, of_decide_eq_true h⟩

/-- A run under one condition is a run under every weaker one. -/
theorem mono (h : Run step ok s as t) (hok : ∀ s a, ok s a → ok' s a) : Run step ok' s as t := by
  induction h with
  | refl => exact .refl
  | snoc _ ha hs ih => exact ih.snoc (hok _ _ ha) hs

theorem unrestricted (h : Run step ok s as t) : Run step Unrestricted s as t :=
  h.mono fun _ _ _ => trivial

/-- A run that ends within a bound is a run of every system that makes the steps which
    stay within it, if no step leads back into the bound. -/
theorem of_within {step' : σ → α → Option σ} {P : σ → Prop} (h : Run step ok s as t) (ht : P t)
    (hback : ∀ s a t, step s a = some t → P t → P s)
    (hagree : ∀ s a t, step s a = some t → P t → step' s a = some t) : Run step' ok s as t := by
  induction h with
  | refl => exact .refl
  | snoc _ ha hs ih => exact (ih (hback _ _ _ hs ht)).snoc ha (hagree _ _ _ hs ht)

/-! ## Invariants -/

/-- What holds at the start and is kept by every step holds at the end. -/
theorem invariant {I : σ → Prop} (h : Run step ok s as t) (h0 : I s)
    (hstep : ∀ t a u, I t → ok t a → step t a = some u → I u) : I t := by
  induction h with
  | refl => exact h0
  | snoc _ ha hs ih => exact hstep _ _ _ ih ha hs

/-- An invariant may lean on facts known of every state of the run. -/
theorem invariant_of {I J : σ → Prop} (h : Run step ok s as t)
    (hJ : ∀ as t, Run step ok s as t → J t) (h0 : I s)
    (hstep : ∀ t a u, J t → I t → ok t a → step t a = some u → I u) : I t := by
  induction h with
  | refl => exact h0
  | snoc hr ha hs ih => exact hstep _ _ _ (hJ _ _ hr) ih ha hs

/-- A run is restricted to `ok'` as soon as every one of its steps meets `ok'`
    in the state the run has reached. -/
theorem restrict (h : Run step ok s as t)
    (hok : ∀ as t a u, Run step ok s as t → ok t a → step t a = some u → ok' t a) :
    Run step ok' s as t := by
  induction h with
  | refl => exact .refl
  | snoc hr ha hs ih => exact ih.snoc (hok _ _ _ _ hr ha hs) hs

end Run

/-! ## Conditions that are exact -/

namespace Run

variable {step : σ → α → Option σ} {ok ok' : σ → α → Prop} {s t u : σ} {as bs : List α}

theorem nil_inv (h : Run step ok s [] t) : t = s := by
  generalize hnil : ([] : List α) = as at h
  cases h with
  | refl => rfl
  | snoc => simp at hnil

theorem snoc_inv {a : α} (h : Run step ok s (as ++ [a]) u) :
    ∃ t, Run step ok s as t ∧ ok t a ∧ step t a = some u := by
  generalize heq : as ++ [a] = cs at h
  cases h with
  | refl => simp at heq
  | snoc hr ha hs =>
    obtain ⟨rfl, hlast⟩ := List.append_inj' heq rfl
    cases hlast
    exact ⟨_, hr, ha, hs⟩

/-- A step leads to one state only, and so do the actions of a run. -/
theorem state_unique (h : Run step ok s as t) (h' : Run step ok' s as u) : t = u := by
  induction h generalizing u with
  | refl => exact h'.nil_inv.symm
  | snoc _ _ hs ih =>
    obtain ⟨v, hv, -, hs'⟩ := h'.snoc_inv
    rw [ih hv] at hs
    exact Option.some.inj (hs.symm.trans hs')

theorem take (h : Run step ok s (as ++ bs) u) : ∃ t, Run step ok s as t := by
  induction bs generalizing as with
  | nil => exact ⟨u, by simpa using h⟩
  | cons b bs ih =>
    rw [List.append_cons] at h
    obtain ⟨t, ht⟩ := ih h
    obtain ⟨v, hv, -, -⟩ := ht.snoc_inv
    exact ⟨v, hv⟩

/-- As `always_iff`, where the step may use an invariant of the runs in which `P` has held
    all along. -/
theorem always_iff_along {P I : σ → Prop} (h : Run step Unrestricted s as t) (h0 : P s) (hI : I s)
    (hstep : ∀ bs t a u, Run step Unrestricted s bs t → P t → I t → step t a = some u →
      (P u ↔ ok t a) ∧ (P u → I u)) :
    (∀ bs cs v, bs ++ cs = as → Run step Unrestricted s bs v → P v) ↔ Run step ok s as t := by
  constructor
  · intro hall
    suffices hboth : Run step ok s as t ∧ I t from hboth.1
    induction h with
    | refl => exact ⟨.refl, hI⟩
    | @snoc as t u a hr _ hs ih =>
      have hprev : ∀ bs cs v, bs ++ cs = as → Run step Unrestricted s bs v → P v := by
        intro bs cs v heq hv
        exact hall bs (cs ++ [a]) v (by rw [← heq, List.append_assoc]) hv
      have ht : P t := hprev as [] t (by simp) hr
      have hu : P u := hall (as ++ [a]) [] u (by simp) (hr.snoc trivial hs)
      obtain ⟨hok, hIt⟩ := ih hprev
      obtain ⟨hiff, hIu⟩ := hstep as t a u hr ht hIt hs
      exact ⟨hok.snoc (hiff.1 hu) hs, hIu hu⟩
  · intro hok bs cs v heq hv
    rw [← heq] at hok
    obtain ⟨w, hw⟩ := hok.take
    rw [hv.state_unique hw]
    clear hok heq hv
    suffices hboth : P w ∧ I w from hboth.1
    induction hw with
    | refl => exact ⟨h0, hI⟩
    | snoc hr ha hs ih =>
      obtain ⟨hiff, hIu⟩ := hstep _ _ _ _ hr.unrestricted ih.1 ih.2 hs
      exact ⟨hiff.2 ha, hIu (hiff.2 ha)⟩

/-- What holds at the start, and what each step keeps if and only if it meets `ok`,
    holds all along a run if and only if all steps of the run meet `ok`. -/
theorem always_iff {P : σ → Prop} (h : Run step Unrestricted s as t) (h0 : P s)
    (hstep : ∀ bs t a u, Run step Unrestricted s bs t → P t → step t a = some u →
      (P u ↔ ok t a)) :
    (∀ bs cs v, bs ++ cs = as → Run step Unrestricted s bs v → P v) ↔ Run step ok s as t :=
  h.always_iff_along (I := fun _ => True) h0 trivial
    fun bs t a u hr ht _ hs => ⟨hstep bs t a u hr ht hs, fun _ => trivial⟩

end Run

/-! ## Histories -/

/-- An entry of a history that has just grown by `ev` is `ev` itself or was there
    before. -/
theorem history_split {ε : Type*} {history pre post : List ε} {ev c : ε}
    (h : history ++ [ev] = pre ++ c :: post) :
    (post = [] ∧ c = ev) ∨ ∃ post', post = post' ++ [ev] ∧ history = pre ++ c :: post' := by
  rcases List.eq_nil_or_concat post with rfl | ⟨post', ev', rfl⟩
  · have hlast := List.append_inj_right' h rfl
    exact .inl ⟨rfl, (List.singleton_inj.1 hlast).symm⟩
  · have hsplit : history ++ [ev] = (pre ++ c :: post') ++ [ev'] := by simpa using h
    obtain ⟨hhistory, hlast⟩ := List.append_inj' hsplit rfl
    exact .inr ⟨post', by rw [List.concat_eq_append, hlast], hhistory⟩

/-- Every entry of a history relates to what is before it as `Q` says. -/
def Throughout {ε : Type*} (Q : List ε → ε → Prop) (history : List ε) : Prop :=
  ∀ pre ev post, history = pre ++ ev :: post → Q pre ev

theorem throughout_nil {ε : Type*} {Q : List ε → ε → Prop} : Throughout Q [] := by
  intro pre ev post h
  simp at h

theorem Throughout.concat {ε : Type*} {Q : List ε → ε → Prop} {history : List ε} {ev : ε}
    (h : Throughout Q history) (hev : Q history ev) : Throughout Q (history ++ [ev]) := by
  intro pre c post heq
  rcases history_split heq with ⟨rfl, rfl⟩ | ⟨post', -, hsplit⟩
  · rw [List.append_cancel_right heq] at hev
    exact hev
  · exact h pre c post' hsplit

/-- Entries that relate to anything before them can be added. -/
theorem Throughout.append {ε : Type*} {Q : List ε → ε → Prop} {history evs : List ε}
    (h : Throughout Q history) (hevs : ∀ ev ∈ evs, ∀ pre, Q pre ev) :
    Throughout Q (history ++ evs) := by
  induction evs generalizing history with
  | nil => simpa using h
  | cons ev evs ih =>
    rw [List.append_cons]
    exact ih (h.concat (hevs ev (by simp) history)) fun ev' hmem => hevs ev' (by simp [hmem])

end Interleaving
