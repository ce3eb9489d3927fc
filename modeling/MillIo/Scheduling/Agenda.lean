-- SUMMARY: The abstract purpose of a timer store: a map from ids to deadlines, and what listing the due ids of such a map means.
import Mathlib.Data.List.Perm.Basic
import Mathlib.Data.List.Nodup
import Mathlib.Data.Nat.Basic

/-!
# Agendas

An agenda gives every live id its deadline. A store of timers refines an agenda
if it lists the due ids of the agenda, each once and by increasing deadline, and
goes on with the agenda without them. Ids with equal deadlines may be listed in
either order.
-/

/-- The deadline of every live id. -/
abbrev Agenda (ι : Type*) := ι → Option ℕ

namespace Agenda

variable {ι : Type*} {a : Agenda ι} {due due' : ℕ → Prop} {l l' : List ι}

/-- What is left of the agenda once the ids of `l` are taken out. -/
def without [DecidableEq ι] (a : Agenda ι) (l : List ι) : Agenda ι :=
  fun i => if i ∈ l then none else a i

/-- `l` lists the ids that are due, each once. -/
structure Lists (a : Agenda ι) (due : ℕ → Prop) (l : List ι) : Prop where
  nodup : l.Nodup
  mem_iff : ∀ i, i ∈ l ↔ ∃ d, a i = some d ∧ due d

/-- `l` lists the ids that are due, each once and by increasing deadline. -/
structure ListsInOrder (a : Agenda ι) (due : ℕ → Prop) (l : List ι) : Prop
    extends Lists a due l where
  sorted : (l.filterMap a).Pairwise (· ≤ ·)

/-! ## Uniqueness -/

/-- Two lists of the same due ids differ in their order only. -/
theorem Lists.perm (h : a.Lists due l) (h' : a.Lists due l') : l.Perm l' :=
  (List.perm_ext_iff_of_nodup h.nodup h'.nodup).2 fun i => by rw [h.mem_iff, h'.mem_iff]

/-- Two lists in order run through the same deadlines, so they differ only in the
    order of ids with equal deadlines. -/
theorem ListsInOrder.deadlines_eq (h : a.ListsInOrder due l) (h' : a.ListsInOrder due l') :
    l.filterMap a = l'.filterMap a :=
  ((h.toLists.perm h'.toLists).filterMap a).eq_of_pairwise
    (fun _ _ _ _ hxy hyx => Nat.le_antisymm hxy hyx) h.sorted h'.sorted

theorem Lists.congr (h : a.Lists due l) (hdue : ∀ i d, a i = some d → (due d ↔ due' d)) :
    a.Lists due' l :=
  ⟨h.nodup, fun i => by
    rw [h.mem_iff]
    exact exists_congr fun d => and_congr_right fun hd => hdue i d hd⟩

theorem ListsInOrder.congr (h : a.ListsInOrder due l)
    (hdue : ∀ i d, a i = some d → (due d ↔ due' d)) : a.ListsInOrder due' l :=
  { h.toLists.congr hdue with sorted := h.sorted }

/-- Nothing is listed when nothing is due. -/
theorem listsInOrder_nil (h : ∀ i d, a i = some d → ¬ due d) : a.ListsInOrder due [] where
  nodup := List.nodup_nil
  mem_iff i := by
    constructor
    · intro hi
      cases hi
    · rintro ⟨d, hd, hdue⟩
      exact absurd hdue (h i d hd)
  sorted := List.Pairwise.nil

/-! ## Listing in two parts -/

variable [DecidableEq ι]

theorem without_apply_of_notMem {i : ι} (h : i ∉ l) : a.without l i = a i := if_neg h

@[simp] theorem without_nil : a.without [] = a := by
  funext i
  simp [without]

theorem without_eq_some_iff {i : ι} {d : ℕ} : a.without l i = some d ↔ i ∉ l ∧ a i = some d := by
  by_cases h : i ∈ l <;> simp [without, h]

theorem filterMap_without (h : ∀ i ∈ l', i ∉ l) : l'.filterMap (a.without l) = l'.filterMap a :=
  List.filterMap_congr fun i hi => without_apply_of_notMem (h i hi)

/-- Listing first what is due before `s` and then what of the rest is due before
    `t` lists what is due before `t`. -/
theorem Lists.append {s t : ℕ} (hst : s ≤ t) (h : a.Lists (· < s) l)
    (h' : (a.without l).Lists (· < t) l') : a.Lists (· < t) (l ++ l') where
  nodup := by
    refine List.nodup_append.2 ⟨h.nodup, h'.nodup, ?_⟩
    rintro i hi j hj rfl
    obtain ⟨d, hd, _⟩ := (h'.mem_iff i).1 hj
    exact (without_eq_some_iff.1 hd).1 hi
  mem_iff i := by
    rw [List.mem_append, h.mem_iff, h'.mem_iff]
    constructor
    · rintro (⟨d, hd, hlt⟩ | ⟨d, hd, hlt⟩)
      · exact ⟨d, hd, Nat.lt_of_lt_of_le hlt hst⟩
      · exact ⟨d, (without_eq_some_iff.1 hd).2, hlt⟩
    · rintro ⟨d, hd, hlt⟩
      by_cases hds : d < s
      · exact .inl ⟨d, hd, hds⟩
      · refine .inr ⟨d, without_eq_some_iff.2 ⟨fun hi => ?_, hd⟩, hlt⟩
        obtain ⟨d', hd', hlt'⟩ := (h.mem_iff i).1 hi
        cases hd.symm.trans hd'
        exact hds hlt'

theorem ListsInOrder.append {s t : ℕ} (hst : s ≤ t) (h : a.ListsInOrder (· < s) l)
    (h' : (a.without l).ListsInOrder (· < t) l') : a.ListsInOrder (· < t) (l ++ l') := by
  have hdisj : ∀ i ∈ l', i ∉ l := by
    intro i hi
    obtain ⟨d, hd, _⟩ := (h'.mem_iff i).1 hi
    exact (without_eq_some_iff.1 hd).1
  refine { h.toLists.append hst h'.toLists with sorted := ?_ }
  rw [List.filterMap_append, List.pairwise_append]
  refine ⟨h.sorted, filterMap_without hdisj ▸ h'.sorted, ?_⟩
  intro d hd d' hd'
  obtain ⟨i, hi, hid⟩ := List.mem_filterMap.1 hd
  obtain ⟨j, hj, hjd⟩ := List.mem_filterMap.1 hd'
  obtain ⟨e, he, hlt⟩ := (h.mem_iff i).1 hi
  cases hid.symm.trans he
  -- The first part took every deadline before `s`, so the second starts there.
  have hle : s ≤ d' := by
    by_contra hlt'
    exact hdisj j hj ((h.mem_iff j).2 ⟨d', hjd, Nat.lt_of_not_le hlt'⟩)
  omega

end Agenda
