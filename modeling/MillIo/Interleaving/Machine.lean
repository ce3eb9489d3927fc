-- SUMMARY: Systems of threads over a shared state, and the rules that lift facts about one thread's step to the whole system.
import MillIo.Interleaving.Run
import Mathlib.Algebra.BigOperators.Group.List.Basic
import Mathlib.Algebra.Order.Ring.Nat

/-!
# Threads over a shared state

A machine says what one thread does to the state it shares with the others and
to its own local state, and what the environment does to the shared state. A
configuration of the machine is the shared state with the local states of all
threads; each step is one of the environment or one of a single thread. Threads
come into being by steps of the environment and stay in the list when they end.
-/

namespace Interleaving

/-- A shared state and the local states of the threads over it. -/
@[ext]
structure Config (σ τ : Type*) where
  shared : σ
  threads : List τ

/-- A step of the environment, or a step of the thread at an index. The second
    argument of `act` is what that step leaves open. -/
inductive Action (ε χ : Type*)
  | env (e : ε)
  | act (i : ℕ) (c : χ)
  deriving DecidableEq

/-- The same step when `n` threads stand in front. -/
def Action.behind {ε χ : Type*} (n : ℕ) : Action ε χ → Action ε χ
  | .env e => .env e
  | .act i c => .act (n + i) c

/-- What the environment and a single thread can do. A step of the environment
    may start new threads. -/
structure Machine (σ τ ε χ : Type*) where
  env : σ → ε → Option (σ × List τ)
  act : σ → τ → χ → Option (σ × τ)

namespace Machine

variable {σ τ ε χ : Type*} {m : Machine σ τ ε χ} {s u : Config σ τ}

def step (m : Machine σ τ ε χ) (s : Config σ τ) : Action ε χ → Option (Config σ τ)
  | .env e => (m.env s.shared e).map fun r => ⟨r.1, s.threads ++ r.2⟩
  | .act i c => s.threads[i]?.bind fun t =>
    (m.act s.shared t c).map fun r => ⟨r.1, s.threads.set i r.2⟩

/-! ## Inversion -/

theorem step_env_iff {e : ε} : m.step s (.env e) = some u ↔
    ∃ r, m.env s.shared e = some r ∧ u = ⟨r.1, s.threads ++ r.2⟩ := by
  simp only [step, Option.map_eq_some_iff]
  exact exists_congr fun r => and_congr_right fun _ => eq_comm

theorem step_act_iff {i : ℕ} {c : χ} : m.step s (.act i c) = some u ↔
    ∃ t r, s.threads[i]? = some t ∧ m.act s.shared t c = some r ∧
      u = ⟨r.1, s.threads.set i r.2⟩ := by
  simp only [step, Option.bind_eq_some_iff, Option.map_eq_some_iff]
  constructor
  · rintro ⟨t, ht, r, hr, rfl⟩
    exact ⟨t, r, ht, hr, rfl⟩
  · rintro ⟨t, r, ht, hr, rfl⟩
    exact ⟨t, ht, r, hr, rfl⟩

/-- The thread at an index splits the list of threads, and replacing the thread
    keeps the two sides. -/
theorem split_at {ts : List τ} {i : ℕ} {t : τ} (h : ts[i]? = some t) :
    ∃ l r, ts = l ++ t :: r ∧ l.length = i ∧ ∀ t', ts.set i t' = l ++ t' :: r := by
  obtain ⟨hi, rfl⟩ := List.getElem?_eq_some_iff.1 h
  refine ⟨ts.take i, ts.drop (i + 1), ?_, by simp; omega, fun t' => ?_⟩
  · rw [← List.drop_eq_getElem_cons hi, List.take_append_drop]
  · rw [List.set_eq_take_append_cons_drop, if_pos hi]

/-- All that a step can do: the environment changes the shared state and adds
    threads, or one thread changes the shared state and itself. -/
theorem step_cases {a : Action ε χ} (h : m.step s a = some u) :
    (∃ e r, a = .env e ∧ m.env s.shared e = some r ∧ u = ⟨r.1, s.threads ++ r.2⟩) ∨
    (∃ c t r, ∃ l l' : List τ, a = .act l.length c ∧ s.threads = l ++ t :: l' ∧
      m.act s.shared t c = some r ∧ u = ⟨r.1, l ++ r.2 :: l'⟩) := by
  cases a with
  | env e =>
    obtain ⟨r, hr, rfl⟩ := step_env_iff.1 h
    exact .inl ⟨e, r, rfl, hr, rfl⟩
  | act i c =>
    obtain ⟨t, r, ht, hr, rfl⟩ := step_act_iff.1 h
    obtain ⟨l, l', hts, rfl, hset⟩ := split_at ht
    exact .inr ⟨c, t, r, l, l', rfl, hts, hr, by rw [hset]⟩

theorem step_act_at {l l' : List τ} {t : τ} {c : χ} {r : σ × τ}
    (ht : s.threads = l ++ t :: l') (hr : m.act s.shared t c = some r) :
    m.step s (.act l.length c) = some ⟨r.1, l ++ r.2 :: l'⟩ := by
  rw [step_act_iff]
  exact ⟨t, r, by simp [ht], hr, by simp [ht]⟩

/-- A step moves the thread at an index, or leaves it as it is. -/
theorem step_getElem? {a : Action ε χ} {i : ℕ} {t : τ} (h : m.step s a = some u)
    (ht : s.threads[i]? = some t) :
    (∃ c r, a = .act i c ∧ m.act s.shared t c = some r ∧ u.shared = r.1 ∧
      u.threads[i]? = some r.2) ∨ u.threads[i]? = some t := by
  obtain ⟨hi, -⟩ := List.getElem?_eq_some_iff.1 ht
  cases a with
  | env e =>
    obtain ⟨r, -, rfl⟩ := step_env_iff.1 h
    exact .inr (by rw [List.getElem?_append_left hi, ht])
  | act j c =>
    obtain ⟨t', r, ht', hr, rfl⟩ := step_act_iff.1 h
    obtain rfl | hne := eq_or_ne j i
    · obtain rfl : t' = t := Option.some.inj (ht'.symm.trans ht)
      exact .inl ⟨c, r, rfl, hr, rfl, List.getElem?_set_self hi⟩
    · exact .inr (by rw [List.getElem?_set_ne hne, ht])

/-- An invariant of a whole run is what the environment and each thread keep. It may
    lean on facts known of every state of the run. -/
theorem invariant_of_run {ok : Config σ τ → Action ε χ → Prop} {as : List (Action ε χ)}
    {I J : Config σ τ → Prop} (h : Run m.step ok s as u) (hJ : ∀ as t, Run m.step ok s as t → J t)
    (h0 : I s)
    (henv : ∀ x ts e y ts', J ⟨x, ts⟩ → I ⟨x, ts⟩ → ok ⟨x, ts⟩ (.env e) →
      m.env x e = some (y, ts') → I ⟨y, ts ++ ts'⟩)
    (hact : ∀ x l l' t c y t', J ⟨x, l ++ t :: l'⟩ → I ⟨x, l ++ t :: l'⟩ →
      ok ⟨x, l ++ t :: l'⟩ (.act l.length c) → m.act x t c = some (y, t') →
      I ⟨y, l ++ t' :: l'⟩) : I u := by
  refine h.invariant_of hJ h0 fun t a v hJt hIt hok hs => ?_
  obtain ⟨x, ts⟩ := t
  rcases step_cases hs with ⟨e, r, rfl, hr, rfl⟩ | ⟨c, t, r, l, l', rfl, hts, hr, rfl⟩
  · exact henv x ts e r.1 r.2 hJt hIt hok hr
  · obtain rfl : ts = l ++ t :: l' := hts
    exact hact x l l' t c r.1 r.2 hJt hIt hok hr

/-! ## Assertions about every thread -/

theorem forall_threads_at {P : τ → Prop} {l l' : List τ} {t : τ} :
    (∀ t' ∈ l ++ t :: l', P t') ↔ P t ∧ ∀ t' ∈ l ++ l', P t' := by
  simp only [List.mem_append, List.mem_cons]
  constructor
  · intro h
    exact ⟨h t (.inr (.inl rfl)), fun t' ht' => h t' (ht'.imp_right .inr)⟩
  · rintro ⟨h, hrest⟩ t' (ht' | rfl | ht')
    · exact hrest t' (.inl ht')
    · exact h
    · exact hrest t' (.inr ht')

theorem exists_threads_at {P : τ → Prop} {l l' : List τ} {t : τ} :
    (∃ t' ∈ l ++ t :: l', P t') ↔ P t ∨ ∃ t' ∈ l ++ l', P t' := by
  simp only [List.mem_append, List.mem_cons]
  constructor
  · rintro ⟨t', ht' | rfl | ht', h⟩
    · exact .inr ⟨t', .inl ht', h⟩
    · exact .inl h
    · exact .inr ⟨t', .inr ht', h⟩
  · rintro (h | ⟨t', ht', h⟩)
    · exact ⟨t, .inr (.inl rfl), h⟩
    · exact ⟨t', ht'.imp_right .inr, h⟩

/-- A thread at another index is one of the others. -/
theorem mem_others {l l' : List τ} {t t' : τ} {i : ℕ} (hne : i ≠ l.length)
    (ht : (l ++ t :: l')[i]? = some t') : t' ∈ l ++ l' := by
  rcases Nat.lt_or_gt_of_ne hne with hlt | hgt
  · rw [List.getElem?_append_left hlt] at ht
    exact List.mem_append_left _ (List.mem_of_getElem? ht)
  · rw [List.getElem?_append_right hgt.le] at ht
    obtain ⟨n, hn⟩ := Nat.exists_eq_succ_of_ne_zero (Nat.sub_ne_zero_of_lt hgt)
    rw [hn, List.getElem?_cons_succ] at ht
    exact List.mem_append_right _ (List.mem_of_getElem? ht)

/-! ## Conditions on the steps of threads -/

/-- Every step of a thread meets `p`. -/
def ThreadSteps (p : Config σ τ → τ → χ → Prop) (s : Config σ τ) : Action ε χ → Prop
  | .env _ => True
  | .act i c => ∀ t ∈ s.threads[i]?, p s t c

instance (p : Config σ τ → τ → χ → Prop) [∀ s t c, Decidable (p s t c)] :
    DecidableRel (ThreadSteps p : Config σ τ → Action ε χ → Prop)
  | _, .env _ => .isTrue trivial
  | s, .act i c => inferInstanceAs (Decidable (∀ t ∈ s.threads[i]?, p s t c))

theorem threadSteps_at {p : Config σ τ → τ → χ → Prop} {c : χ} {x : σ} {l l' : List τ} {t : τ} :
    ThreadSteps p ⟨x, l ++ t :: l'⟩ (.act l.length c : Action ε χ) ↔ p ⟨x, l ++ t :: l'⟩ t c := by
  simp [ThreadSteps]

/-! ## Threads that stand still -/

theorem getElem?_behind (pre ts : List τ) (i : ℕ) : (pre ++ ts)[pre.length + i]? = ts[i]? := by
  rw [List.getElem?_append_right (Nat.le_add_right _ _), Nat.add_sub_cancel_left]

theorem step_behind (pre : List τ) {a : Action ε χ} {x y : σ} {ts us : List τ}
    (h : m.step ⟨x, ts⟩ a = some ⟨y, us⟩) :
    m.step ⟨x, pre ++ ts⟩ (a.behind pre.length) = some ⟨y, pre ++ us⟩ := by
  cases a with
  | env e =>
    obtain ⟨r, hr, hu⟩ := step_env_iff.1 h
    cases hu
    exact step_env_iff.2 ⟨r, hr, by rw [List.append_assoc]⟩
  | act i c =>
    obtain ⟨t, r, ht, hr, hu⟩ := step_act_iff.1 h
    cases hu
    have hset : (pre ++ ts).set (pre.length + i) r.2 = pre ++ ts.set i r.2 := by
      rw [List.set_append_right _ _ (Nat.le_add_right _ _), Nat.add_sub_cancel_left]
    exact step_act_iff.2 ⟨t, r, (getElem?_behind pre ts i).trans ht, hr, by rw [hset]⟩

/-- What some threads do they also do behind others that stand still. -/
theorem run_behind (pre : List τ) {ok ok' : Config σ τ → Action ε χ → Prop}
    {as : List (Action ε χ)} (hok : ∀ x ts a, ok ⟨x, ts⟩ a → ok' ⟨x, pre ++ ts⟩ (a.behind pre.length))
    (h : Run m.step ok s as u) :
    Run m.step ok' ⟨s.shared, pre ++ s.threads⟩ (as.map (Action.behind pre.length))
      ⟨u.shared, pre ++ u.threads⟩ := by
  induction h with
  | refl => exact .refl
  | snoc _ ha hs ih =>
    rw [List.map_append]
    exact ih.snoc (hok _ _ _ ha) (step_behind pre hs)

/-! ## Sums over the threads -/

/-- The sum of what the threads weigh. -/
def total (w : τ → ℕ) (ts : List τ) : ℕ := (ts.map w).sum

@[simp] theorem total_nil (w : τ → ℕ) : total w [] = 0 := rfl

@[simp] theorem total_cons (w : τ → ℕ) (t : τ) (ts : List τ) :
    total w (t :: ts) = w t + total w ts := by
  simp [total]

@[simp] theorem total_append (w : τ → ℕ) (ts ts' : List τ) :
    total w (ts ++ ts') = total w ts + total w ts' := by
  simp [total]

theorem total_eq_zero {w : τ → ℕ} {ts : List τ} (h : ∀ t ∈ ts, w t = 0) : total w ts = 0 := by
  induction ts with
  | nil => rfl
  | cons t ts ih =>
    rw [total_cons, h t (by simp), ih fun t ht => h t (by simp [ht])]

theorem le_total {w : τ → ℕ} {ts : List τ} {t : τ} (h : t ∈ ts) : w t ≤ total w ts := by
  obtain ⟨l, r, rfl⟩ := List.append_of_mem h
  simp only [total_append, total_cons]
  omega

theorem total_mono {w w' : τ → ℕ} {ts : List τ} (h : ∀ t ∈ ts, w t ≤ w' t) :
    total w ts ≤ total w' ts := by
  induction ts with
  | nil => exact Nat.le_refl _
  | cons t ts ih =>
    rw [total_cons, total_cons]
    exact Nat.add_le_add (h t (by simp)) (ih fun t ht => h t (by simp [ht]))

end Machine

end Interleaving
