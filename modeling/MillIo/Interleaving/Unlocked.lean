-- SUMMARY: What frames do without their locks: a run of threads with call stacks is a run of their frames.
import MillIo.Interleaving.CallStack
import Mathlib.Algebra.Order.Group.Multiset
import Mathlib.Logic.Relation

/-!
# Frames without locks

Locks only rule out interleavings. Without them, and without the stacks that say which
frame waits for which, there are the frames of all threads, which go on one at a time.
That a frame has been called tells nothing until it takes a step, so all frames may as
well be there from the start. Models of the same code that look at different sides of it
can be compared by what their threads make the frames do.
-/

namespace Interleaving

variable {σ μ φ χ ω ε τ : Type*}

/-- How an instruction goes on if no lock is in its way. -/
def Instr.go (s : σ) : Instr σ μ φ χ → Move χ ω → Option (σ × φ)
  | .lock _ next, .go => some (s, next)
  | .unlock _ next, .go => some (s, next)
  | .callback ok failed, .returns b => some (s, if b then ok else failed)
  | .branch next, .choose o => next s o
  | _, _ => none

/-- What all threads contribute. -/
def contents (frames : τ → Multiset φ) (ts : List τ) : Multiset φ := (ts.map frames).sum

/-- The first frames of what the actions call. -/
def starts {α : Type*} (called : α → Option φ) (as : List α) : Multiset φ := ↑(as.filterMap called)

section

variable {α : Type*} {frames : τ → Multiset φ} {l l' ts ts' : List τ} {t : τ} {called : α → Option φ}
  {as as' : List α} {a : α} {f : φ}

@[simp] theorem contents_nil : contents frames [] = 0 := rfl

@[simp] theorem contents_append : contents frames (ts ++ ts') = contents frames ts + contents frames ts' := by
  simp [contents]

@[simp] theorem contents_singleton : contents frames [t] = frames t := by
  simp [contents]

theorem contents_at : contents frames (l ++ t :: l') = frames t + contents frames (l ++ l') := by
  simp only [contents, List.map_append, List.map_cons, List.sum_append, List.sum_cons]
  exact add_left_comm _ _ _

theorem starts_append : starts called (as ++ as') = starts called as + starts called as' := by
  simp only [starts, List.filterMap_append, Multiset.coe_add]

theorem starts_of_some (h : called a = some f) : starts called [a] = {f} := by
  simp [starts, h]

theorem starts_of_none (h : called a = none) : starts called [a] = 0 := by
  simp [starts, h]

end

namespace Code

section

variable (c : Code σ μ φ χ ω ε)

/-- One of the frames goes on or returns. -/
inductive Unlocked : σ × Multiset φ → σ × Multiset φ → Prop
  | go (f f' : φ) (a : Move χ ω) (s s' : σ) (fs : Multiset φ) :
      (c.instr f).go s a = some (s', f') → Unlocked (s, f ::ₘ fs) (s', f' ::ₘ fs)
  | ret (f : φ) (s : σ) (fs : Multiset φ) : c.instr f = .ret → Unlocked (s, f ::ₘ fs) (s, fs)

abbrev Reaches : σ × Multiset φ → σ × Multiset φ → Prop := Relation.ReflTransGen c.Unlocked

/-- Where a frame goes by the moves. -/
def follow (s : σ) (f : φ) : List (Move χ ω) → Option (σ × φ)
  | [] => some (s, f)
  | a :: as => ((c.instr f).go s a).bind fun r => follow r.1 r.2 as

end

variable {c : Code σ μ φ χ ω ε} {s s' : σ} {f f' : φ} {x y z : σ × Multiset φ}

theorem Reaches.trans (h : c.Reaches x y) (hrest : c.Reaches y z) : c.Reaches x z :=
  Relation.ReflTransGen.trans h hrest

/-- The other frames do not matter. -/
theorem Unlocked.beside (h : c.Unlocked x y) (gs : Multiset φ) :
    c.Unlocked (x.1, x.2 + gs) (y.1, y.2 + gs) := by
  cases h with
  | go f f' a s s' fs hgo =>
    rw [Multiset.cons_add, Multiset.cons_add]
    exact .go f f' a s s' _ hgo
  | ret f s fs hinstr =>
    rw [Multiset.cons_add]
    exact .ret f s _ hinstr

theorem Reaches.beside (h : c.Reaches x y) (gs : Multiset φ) :
    c.Reaches (x.1, x.2 + gs) (y.1, y.2 + gs) :=
  h.lift (fun z => (z.1, z.2 + gs)) fun _ _ hstep => hstep.beside gs

/-- A thread goes on next to the others. -/
theorem Reaches.at {frames : τ → Multiset φ} {t t' : τ} {gs : Multiset φ}
    (h : c.Reaches (s, frames t) (s', frames t' + gs)) (l l' : List τ) :
    c.Reaches (s, contents frames (l ++ t :: l')) (s', contents frames (l ++ t' :: l') + gs) := by
  rw [contents_at, contents_at, add_right_comm]
  exact h.beside _

/-! ## A frame on its own -/

theorem Reaches.follow (as : List (Move χ ω)) (h : c.follow s f as = some (s', f')) :
    c.Reaches (s, {f}) (s', {f'}) := by
  induction as generalizing s f with
  | nil =>
    cases h
    exact .refl
  | cons a as ih =>
    obtain ⟨⟨s'', f''⟩, hgo, hrest⟩ := Option.bind_eq_some_iff.1 h
    exact (ih hrest).head (.go f f'' a s s'' 0 hgo)

/-- The frame returns in the end. -/
theorem Reaches.returns (as : List (Move χ ω)) (h : c.follow s f as = some (s', f'))
    (hret : c.instr f' = .ret) : c.Reaches (s, {f}) (s', 0) :=
  (Reaches.follow as h).tail (.ret f' s' 0 hret)

/-! ## Threads with stacks -/

section

variable [DecidableEq μ] {l l' : Locks σ μ} {t t' : CallStack μ φ} {a : Move χ ω}

/-- A step of a thread calls a frame or is one of its innermost frame. -/
theorem Acts.reaches (h : c.Acts l t a l' t') (i : ℕ) :
    c.Reaches (l.data, ↑t.frames + starts c.called [.act i a]) (l'.data, ↑t'.frames) := by
  have hgo {f f' : φ} {s s' : σ} {rest : List φ} (hnone : c.called (.act i a) = none)
      (hnext : (c.instr f).go s a = some (s', f')) :
      c.Reaches (s, ↑(f :: rest) + starts c.called [.act i a]) (s', ↑(f' :: rest)) := by
    rw [starts_of_none hnone, add_zero]
    exact .single (.go f f' a s s' ↑rest hnext)
  cases h with
  | lock hinstr _ | unlock hinstr | returns _ hinstr =>
    refine hgo rfl ?_
    rw [hinstr]
    rfl
  | branch hinstr hnext =>
    refine hgo rfl ?_
    rw [hinstr]
    exact hnext
  | @enter held rest f ok failed op hinstr =>
    have hframes : ((↑(f :: rest) : Multiset φ) + {c.entry op}) = ↑(c.entry op :: f :: rest) := by
      rw [add_comm, Multiset.singleton_add, Multiset.cons_coe]
    have hcalled : c.called (.act i (.enter op)) = some (c.entry op) := rfl
    rw [starts_of_some hcalled, hframes]
  | @ret held rest f hinstr =>
    have hcalled : c.called (.act i .go) = none := rfl
    rw [starts_of_none hcalled, add_zero]
    exact .single (.ret f _ ↑rest hinstr)

/-- What threads with stacks and locks do, their frames do. -/
theorem reaches_of_run {ok : Config (Locks σ μ) (CallStack μ φ) → Action ε (Move χ ω) → Prop}
    {data : σ} {as : List (Action ε (Move χ ω))} {u : Config (Locks σ μ) (CallStack μ φ)}
    (h : Run c.system.step ok (initial μ φ data) as u) :
    c.Reaches (data, starts c.called as) (u.shared.data, contents (fun t => ↑t.frames) u.threads) := by
  induction h with
  | refl => exact .refl
  | @snoc as u v a _ _ hs ih =>
    rw [starts_append]
    refine (ih.beside _).trans ?_
    rcases Machine.step_cases hs with ⟨e, r, rfl, hr, rfl⟩ | ⟨o, t, ⟨s', t'⟩, l, l', rfl, hts, hr, rfl⟩
    · cases hr
      have hcalled : c.called (.env e) = some (c.root e) := rfl
      rw [contents_append, contents_singleton, starts_of_some hcalled]
      exact .refl
    · rw [hts, contents_at, contents_at, add_right_comm]
      exact ((c.acts_of_act hr).reaches l.length).beside _

end

end Code

end Interleaving
