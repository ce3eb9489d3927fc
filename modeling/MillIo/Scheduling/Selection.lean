-- SUMMARY: A queue from which an element that none precedes is taken each time: what waits in it together leaves in order, and a stable sort is such an order.
import Mathlib.Data.List.Sort

/-!
# Selection

Elements are put into a queue, and each time one that no other precedes is taken out.
Elements that wait in the queue together are taken in the order of the relation,
whatever else comes and goes in the meantime.
-/

namespace Selection

variable {α : Type*} {r : α → α → Prop} {ws queue queue' taken : List α} {x : α}

/-- No element of the queue comes before this one. -/
structure Foremost (r : α → α → Prop) (queue : List α) (x : α) : Prop where
  mem : x ∈ queue
  first : ∀ y ∈ queue, ¬ r y x

/-- Of the elements of `ws` those of `taken` have left the queue, and the rest waits. -/
def Serves (ws queue taken : List α) : Prop :=
  ∃ rest, ws = taken ++ rest ∧ ∀ x ∈ ws, x ∈ queue ↔ x ∈ rest

theorem Serves.start (h : ∀ x ∈ ws, x ∈ queue) : Serves ws queue [] :=
  ⟨ws, rfl, fun x hx => ⟨fun _ => hx, fun _ => h x hx⟩⟩

/-- Other elements may come and go. -/
theorem Serves.congr (h : Serves ws queue taken) (hqueue : ∀ x ∈ ws, x ∈ queue' ↔ x ∈ queue) :
    Serves ws queue' taken := by
  obtain ⟨rest, hws, hrest⟩ := h
  exact ⟨rest, hws, fun x hx => (hqueue x hx).trans (hrest x hx)⟩

/-- The next element of `ws` to be taken is the next in their order. -/
theorem Serves.take (h : Serves ws queue taken) (hws : ws.Pairwise r) (hnodup : ws.Nodup)
    (hx : x ∈ ws) (hfirst : Foremost r queue x)
    (hqueue : ∀ y ∈ ws, y ∈ queue' ↔ y ∈ queue ∧ y ≠ x) : Serves ws queue' (taken ++ [x]) := by
  obtain ⟨rest, rfl, hrest⟩ := h
  have hmem : x ∈ rest := (hrest x hx).1 hfirst.mem
  cases rest with
  | nil => cases hmem
  | cons y rest =>
    have hy : y ∈ taken ++ y :: rest := List.mem_append_right _ List.mem_cons_self
    have hsorted : (y :: rest).Pairwise r := (List.pairwise_append.1 hws).2.1
    obtain rfl : x = y := by
      rcases List.mem_cons.1 hmem with heq | hlater
      · exact heq
      · -- An element of the rest that waits before `x` would precede it.
        exact absurd (List.rel_of_pairwise_cons hsorted hlater)
          (hfirst.first y ((hrest y hy).2 List.mem_cons_self))
    have hout : x ∉ rest := (List.nodup_cons.1 (List.nodup_append.1 hnodup).2.1).1
    refine ⟨rest, by simp, fun z hz => ?_⟩
    rw [hqueue z hz, hrest z hz, List.mem_cons]
    constructor
    · rintro ⟨hz, hne⟩
      exact hz.resolve_left hne
    · intro hz
      exact ⟨.inr hz, fun heq => hout (heq ▸ hz)⟩

/-! ## Stable sorting -/

section Stable

variable {le : α → α → Prop} [DecidableRel le] {l : List α} {a : α}

theorem pairwise_orderedInsert [Std.Total le] [IsTrans α le] (hl : l.Pairwise r)
    (hle : l.Pairwise le) (hlow : ∀ b ∈ l, le b a → ¬ le a b → r b a)
    (hhigh : ∀ b ∈ l, le a b → r a b) : (l.orderedInsert le a).Pairwise r := by
  induction l with
  | nil => exact List.pairwise_singleton r a
  | cons b l ih =>
    obtain ⟨hb, hl'⟩ := List.pairwise_cons.1 hl
    obtain ⟨hble, hle'⟩ := List.pairwise_cons.1 hle
    by_cases hab : le a b
    · rw [List.orderedInsert_cons_of_le le l hab]
      refine List.pairwise_cons.2 ⟨fun c hc => hhigh c hc ?_, hl⟩
      rcases List.mem_cons.1 hc with rfl | hc
      · exact hab
      · exact trans_of le hab (hble c hc)
    · rw [List.orderedInsert_cons, if_neg hab]
      refine List.pairwise_cons.2 ⟨fun c hc => ?_, ?_⟩
      · rcases (List.mem_orderedInsert le).1 hc with rfl | hc
        · exact hlow b List.mem_cons_self ((Std.Total.total _ b).resolve_left hab) hab
        · exact hb c hc
      · exact ih hl' hle' (fun c hc => hlow c (List.mem_cons_of_mem b hc))
          fun c hc => hhigh c (List.mem_cons_of_mem b hc)

/-- A stable sort lists its elements in any order that refines the one it sorts by, if
    that order agrees with the list on ties. -/
theorem pairwise_insertionSort_of_ties [Std.Total le] [IsTrans α le]
    (hstrict : ∀ a b, le a b → ¬ le b a → r a b) (hties : l.Pairwise fun a b => le a b → r a b) :
    (l.insertionSort le).Pairwise r := by
  induction l with
  | nil => exact .nil
  | cons a l ih =>
    obtain ⟨ha, hl⟩ := List.pairwise_cons.1 hties
    rw [List.insertionSort_cons]
    refine pairwise_orderedInsert (ih hl) (List.pairwise_insertionSort le l) ?_ ?_
    · exact fun b _ hba hab => hstrict b a hba hab
    · exact fun b hb hab => ha b ((List.mem_insertionSort le).1 hb) hab

end Stable

end Selection
