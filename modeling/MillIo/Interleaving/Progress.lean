-- SUMMARY: What a system reaches on every way it can go on, and the rule that proves it by a measure.
import Mathlib.Order.Basic
import Mathlib.Logic.Hydra
import Mathlib.Tactic.Common

/-!
# Progress

`adv s u` says that the system can go on from `s` to `u`. A state with `P` is
inevitable from `s` when the system can go on from every state without `P`, and
cannot do so for ever.
-/

namespace Interleaving

variable {σ α : Type*}

/-- Every way to go on from the state comes to a state with `P`. -/
inductive Inevitably (adv : σ → σ → Prop) (P : σ → Prop) : σ → Prop
  | now {s : σ} : P s → Inevitably adv P s
  | later {s : σ} : (∃ u, adv s u) → (∀ u, adv s u → Inevitably adv P u) → Inevitably adv P s

/-- A state with `P` is inevitable if the steps keep an invariant under which each
    of them makes the measure smaller, and the system stops only at `P`. -/
theorem Inevitably.of_measure {adv : σ → σ → Prop} {I P : σ → Prop} {r : α → α → Prop} {s : σ}
    (hr : WellFounded r) (μ : σ → α) (hkeep : ∀ s u, I s → adv s u → I u)
    (hless : ∀ s u, I s → adv s u → r (μ u) (μ s))
    (hstop : ∀ s, I s → (∀ u, ¬ adv s u) → P s) (h : I s) : Inevitably adv P s := by
  induction hn : μ s using hr.induction generalizing s with
  | h n ih =>
    subst hn
    by_cases hadv : ∃ u, adv s u
    · refine .later hadv fun u hu => ?_
      exact ih (μ u) (hless s u h hu) (hkeep s u h hu) rfl
    · exact .now (hstop s h (not_exists.1 hadv))

/-- One of the elements of a list that have a measure gets a smaller one. -/
theorem cutExpand_set {β : Type*} {r : α → α → Prop} {μ : β → Option α} {l : List β} {k : ℕ} {a b : β}
    {m m' : α} (hk : l[k]? = some a) (ha : μ a = some m) (hb : μ b = some m') (h : r m' m) :
    Relation.CutExpand r (↑((l.set k b).filterMap μ)) (↑(l.filterMap μ)) := by
  induction l generalizing k with
  | nil => cases hk
  | cons c l ih =>
    cases k with
    | zero =>
      cases hk
      rw [List.set_cons_zero, List.filterMap_cons_some hb, List.filterMap_cons_some ha,
        ← Multiset.cons_coe, ← Multiset.cons_coe, ← Multiset.singleton_add, ← Multiset.singleton_add]
      exact Relation.cutExpand_single_add h _
    | succ k =>
      have hrest := ih hk
      rw [List.set_cons_succ]
      cases hc : μ c with
      | none => rwa [List.filterMap_cons_none hc, List.filterMap_cons_none hc]
      | some n =>
        rw [List.filterMap_cons_some hc, List.filterMap_cons_some hc, ← Multiset.cons_coe,
          ← Multiset.cons_coe, ← Multiset.singleton_add, ← Multiset.singleton_add]
        exact (Relation.cutExpand_add_left _).2 hrest

end Interleaving
