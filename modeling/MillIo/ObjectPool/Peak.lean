-- SUMMARY: The pool makes no more objects than have been in use at once: it grows only when all of its objects are held.
import MillIo.ObjectPool.Isolation
import MillIo.Interleaving.Lock

/-!
# How many objects there are

An object is created only by an `acquire` that has found the channel empty. The receiver's
lock keeps the others from it until then, so at that moment all objects that there are have
holders, and the `acquire` is one holder more.
-/

namespace ObjectPool

open Interleaving

variable {T η χ : Type*}

/-- From the call of `acquire` to the drop. -/
def PooledObject.inUse : PooledObject T η → ℕ
  | dropped => 0
  | _ => 1

/-- At most `most` objects are in use at once, or about to be. -/
def Within (most : ℕ) (s : State T η) (_ : Step χ) : Prop :=
  Machine.total PooledObject.inUse s.threads ≤ most

instance (most : ℕ) : DecidableRel (Within most : State T η → Step χ → Prop) :=
  fun s _ => inferInstanceAs (Decidable (Machine.total PooledObject.inUse s.threads ≤ most))

section Peak

variable {pool : Pool T} {holder : Holder T η χ} {x s' : Shared T} {t t' : PooledObject T η}
  {l l' : List (PooledObject T η)} {s : State T η} {as : List (Step χ)}
  {ok : State T η → Step χ → Prop} {initialSize most : ℕ}

/-- The thread that creates an object has the lock. -/
theorem guarded_of_run (h : Run (system pool holder).step ok (initial pool initialSize) as s) :
    Guarded PooledObject.isCreating Shared.locked s := by
  refine Machine.invariant_of_run (J := fun _ => True) h (fun _ _ _ => trivial) rfl ?_ ?_
  · intro x ts e y ts' _ hinv _ he
    cases e with
    | acquire =>
      cases he
      exact hinv.env rfl (List.forall_mem_singleton.2 rfl)
  · intro x l l' t c y t' _ hinv _ hr
    refine hinv.act ?_
    cases acts_of_proceed hr with
    | lock hfree _ => exact .inl (by simp [PooledObject.isCreating, hfree])
    | create => exact .inr ⟨rfl, rfl, rfl⟩
    | _ => exact .inl rfl

theorem length_objects_le (t : PooledObject T η) : t.objects.length ≤ t.inUse := by
  cases t <;> simp [PooledObject.objects, PooledObject.inUse]

theorem length_flatMap_le (ts : List (PooledObject T η)) :
    (ts.flatMap PooledObject.objects).length ≤ Machine.total PooledObject.inUse ts := by
  induction ts with
  | nil => exact Nat.le_refl 0
  | cons t ts ih =>
    have hle := length_objects_le t
    rw [List.flatMap_cons, List.length_append, Machine.total_cons]
    omega

/-- An `acquire` that finds the channel empty makes one holder more than there are objects. -/
theorem created_lt_of_empty {m : ℕ} (h : Conserved initialSize m ⟨x, l ++ .acquiring :: l'⟩)
    (hempty : x.channel = []) :
    x.created < Machine.total PooledObject.inUse (l ++ .acquiring :: l') := by
  have hlength := h.serials.length_eq
  simp only [objects, hempty, List.nil_append, List.length_map, List.length_range,
    List.flatMap_append, List.flatMap_cons, PooledObject.objects, List.length_append] at hlength
  have hleft := length_flatMap_le l
  have hright := length_flatMap_le l'
  simp only [Machine.total_append, Machine.total_cons, PooledObject.inUse]
  omega

/-- In every run in which at most `most` objects are in use at once, whatever threads acquire and
    drop them: the pool makes at most that many, apart from those it begins with. -/
theorem created_le_peak (h : Run (system pool holder).step (Within most) (initial pool initialSize) as s) :
    s.shared.created + Machine.total PooledObject.isCreating s.threads ≤ max initialSize most ∧
      (objects s).length ≤ max initialSize most := by
  have hcreated : s.shared.created + Machine.total PooledObject.isCreating s.threads ≤
      max initialSize most := by
    refine Machine.invariant_of_run (I := fun s : State T η =>
      s.shared.created + Machine.total PooledObject.isCreating s.threads ≤ max initialSize most)
      (J := fun s => (∃ m, Conserved initialSize m s) ∧ Guarded PooledObject.isCreating Shared.locked s)
      h (fun _ _ hr => ⟨⟨_, conserved_of_run hr.unrestricted⟩, guarded_of_run hr⟩) ?_ ?_ ?_
    · exact Nat.le_max_left _ _
    · intro x ts e y ts' _ hle _ he
      cases e with
      | acquire =>
        cases he
        simpa [PooledObject.isCreating] using hle
    · rintro x l l' t c y t' ⟨⟨m, hconserved⟩, hguarded⟩ hle hwithin hr
      have hacts := acts_of_proceed hr
      have hmove := act_created hacts
      simp only [Machine.total_append, Machine.total_cons] at hle ⊢
      cases hacts with
      | lock hfree hempty =>
        -- nobody else is creating, and all objects are held
        have hnone : Machine.total PooledObject.isCreating (l ++ .acquiring :: l') = 0 := by
          have htotal : Machine.total PooledObject.isCreating (l ++ .acquiring :: l') =
            x.locked.toNat := hguarded
          rw [htotal, hfree, Bool.toNat_false]
        have hlt := created_lt_of_empty hconserved hempty
        have hmost : Machine.total PooledObject.inUse (l ++ .acquiring :: l') ≤ most := hwithin
        have hmax := Nat.le_max_right initialSize most
        simp only [Machine.total_append, Machine.total_cons] at hnone
        simp only [PooledObject.isCreating] at hnone ⊢
        omega
      | receive object channel hfree hchannel =>
        simp only [PooledObject.isCreating] at hle ⊢
        omega
      | create | reset | use | drop =>
        simp only [PooledObject.isCreating] at hle ⊢
        omega
  refine ⟨hcreated, ?_⟩
  have hlength := (conserved_of_run h.unrestricted).serials.length_eq
  rw [List.length_map, List.length_range] at hlength
  omega

end Peak

/-- Three objects in turn, and never more than two at once: the third one is not created. -/
theorem created_le_peak_two : ∃ s,
    Run (system (vecPool fun _ => []) (asMut _)).step (Within 2) (initial (vecPool fun _ => []) 1)
      [.env .acquire, .act 0 .go, .env .acquire, .act 1 .go, .act 1 .go, .act 0 .go, .act 0 .go,
        .env .acquire, .act 2 .go] s ∧
    s.shared.created = 2 ∧
    s.shared.created + Machine.total PooledObject.isCreating s.threads ≤ max 1 2 ∧
    (objects s).length ≤ max 1 2 := by
  obtain ⟨s, hrun, hcreated⟩ : ∃ s,
      Run (system (vecPool fun _ => []) (asMut _)).step (Within 2) (initial (vecPool fun _ => []) 1)
        [.env .acquire, .act 0 .go, .env .acquire, .act 1 .go, .act 1 .go, .act 0 .go, .act 0 .go,
          .env .acquire, .act 2 .go] s ∧ s.shared.created = 2 := Run.exists_of_exec (by decide +kernel)
  exact ⟨s, hrun, hcreated, created_le_peak hrun⟩

end ObjectPool
