-- SUMMARY: A lock that at most one thread holds, as a flag of the shared state and a weight of the threads.
import MillIo.Interleaving.Machine

/-!
# Locks

`holds` is one for a thread that has the lock and zero for the others. The lock is
guarded when its flag says whether some thread has it.
-/

namespace Interleaving

variable {σ τ : Type*} {holds : τ → ℕ} {locked : σ → Bool} {x y : σ} {t t' : τ} {l l' : List τ}

/-- The lock is taken if and only if one thread holds it, and no two threads do. -/
def Guarded (holds : τ → ℕ) (locked : σ → Bool) (s : Config σ τ) : Prop :=
  Machine.total holds s.threads = (locked s.shared).toNat

namespace Guarded

/-- A thread takes the lock when it is free, gives back the one it holds, or leaves it
    alone. -/
theorem act (h : Guarded holds locked ⟨x, l ++ t :: l'⟩)
    (hstep : holds t' + (locked x).toNat = holds t + (locked y).toNat ∨
      (holds t = 1 ∧ holds t' = 0 ∧ locked y = false)) :
    Guarded holds locked ⟨y, l ++ t' :: l'⟩ := by
  have htotal : Machine.total holds (l ++ t :: l') = (locked x).toNat := h
  have hle := Bool.toNat_le (locked x)
  simp only [Guarded, Machine.total_append, Machine.total_cons] at htotal ⊢
  rcases hstep with heq | ⟨hin, hout, hfree⟩
  · omega
  · rw [hfree, Bool.toNat_false]
    omega

theorem env {ts ts' : List τ} (h : Guarded holds locked ⟨x, ts⟩) (hlocked : locked y = locked x)
    (hnew : ∀ t ∈ ts', holds t = 0) : Guarded holds locked ⟨y, ts ++ ts'⟩ := by
  have htotal : Machine.total holds ts = (locked x).toNat := h
  simp only [Guarded, Machine.total_append, Machine.total_eq_zero hnew, htotal, hlocked,
    Nat.add_zero]

/-- While a thread holds the lock no other thread does. -/
theorem others (h : Guarded holds locked ⟨x, l ++ t :: l'⟩) (ht : holds t = 1)
    (ht' : t' ∈ l ++ l') : holds t' = 0 := by
  have htotal : Machine.total holds (l ++ t :: l') = (locked x).toNat := h
  have hle := Bool.toNat_le (locked x)
  have hmem := Machine.le_total (w := holds) ht'
  simp only [Machine.total_append, Machine.total_cons] at htotal hmem
  omega

/-- While the lock is free no thread holds it. -/
theorem free {s : Config σ τ} (h : Guarded holds locked s) (hfree : locked s.shared = false)
    (ht : t ∈ s.threads) : holds t = 0 := by
  have htotal : Machine.total holds s.threads = (locked s.shared).toNat := h
  have hmem := Machine.le_total (w := holds) ht
  rw [hfree, Bool.toNat_false] at htotal
  omega

/-- The lock is taken while a thread holds it. -/
theorem taken {s : Config σ τ} (h : Guarded holds locked s) (ht : t ∈ s.threads)
    (hholds : holds t = 1) : locked s.shared = true := by
  cases hfree : locked s.shared with
  | true => rfl
  | false =>
    have hzero := h.free hfree ht
    omega

/-- No thread holds the lock more than once. -/
theorem le_one {s : Config σ τ} (h : Guarded holds locked s) (t : τ) (ht : t ∈ s.threads) :
    holds t ≤ 1 := by
  have htotal : Machine.total holds s.threads = (locked s.shared).toNat := h
  have hmem := Machine.le_total (w := holds) ht
  exact hmem.trans (htotal ▸ Bool.toNat_le _)

end Guarded

end Interleaving
