-- SUMMARY: The workers of the compute pool, the holder of its queue lock, and what ownership says about spawns and the drop.
import MillIo.ComputePool.Pool
import MillIo.Interleaving.Lock
import Mathlib.Data.List.Nodup

/-!
# The threads of the pool

The workers are there from the beginning and are all different; one thread at a time
has the queue lock; and a pool that is being dropped has no call of `spawn` in
progress.
-/

namespace ComputePool

open Interleaving

section

variable {s s' : Pool} {t t' : Thread} {l l' : List Thread} {id : ℕ}

/-! ## The queue lock -/

def Spawn.holds : Spawn → ℕ
  | .pushed _ => 1
  | .submitted _ => 1
  | _ => 0

def Worker.holds : Worker → ℕ
  | .testing => 1
  | .waiting => 1
  | .leaving => 1
  | .popped _ => 1
  | _ => 0

def Thread.holds : Thread → ℕ
  | .spawn t => t.holds
  | .worker _ t => t.holds
  | .drop _ => 0

def Exclusive (s : State) : Prop := Guarded Thread.holds Pool.locked s

theorem lock_act (h : Acts s t s' t') :
    t'.holds + s.locked.toNat = t.holds + s'.locked.toNat ∨
      (t.holds = 1 ∧ t'.holds = 0 ∧ s'.locked = false) := by
  cases h with
  | push t hfree =>
    left
    simp [Thread.holds, Spawn.holds, Pool.push, hfree]
  | lock id hfree =>
    left
    simp [Thread.holds, Worker.holds, hfree]
  | wakeUp id hawake hfree =>
    left
    simp [Thread.holds, Worker.holds, hfree]
  | deepen | park | exit | popNothing | lessen => exact .inr ⟨rfl, rfl, rfl⟩
  | countEnded id panicked => exact .inl rfl
  | _ => exact .inl rfl

theorem exclusive_of_run {ok : State → Step → Prop} {capacity : ℕ} {as : List Step} {s : State}
    (h : Run system.step ok (initial capacity) as s) : Exclusive s := by
  refine invariant_of_run (I := Exclusive) (J := fun _ => True) h (fun _ _ _ => trivial) ?_ ?_ ?_
  · refine Machine.total_eq_zero fun t ht => ?_
    obtain ⟨id, -, rfl⟩ := List.mem_map.1 ht
    rfl
  · intro s ts e s' t _ hs henters
    cases henters <;> exact Guarded.env hs rfl (by simp [Thread.holds, Spawn.holds])
  · exact fun s l l' t o s' t' _ hs _ hact => Guarded.act hs (lock_act hact)

/-! ## The workers -/

def Thread.workerId : Thread → Option ℕ
  | .worker id _ => some id
  | _ => none

/-- The workers are those the pool was made with. -/
def Roster (s : State) : Prop :=
  s.threads.filterMap Thread.workerId = List.range s.shared.capacity

theorem workerId_act (h : Acts s t s' t') : t'.workerId = t.workerId := by
  cases h <;> rfl

theorem capacity_act (h : Acts s t s' t') : s'.capacity = s.capacity := by
  cases h <;> rfl

theorem roster_of_run {ok : State → Step → Prop} {capacity : ℕ} {as : List Step} {s : State}
    (h : Run system.step ok (initial capacity) as s) : Roster s ∧ s.shared.capacity = capacity := by
  refine invariant_of_run (I := fun s => Roster s ∧ s.shared.capacity = capacity)
    (J := fun _ => True) h (fun _ _ _ => trivial) ?_ ?_ ?_
  · refine ⟨?_, rfl⟩
    simp [Roster, initial, Pool.new, Thread.workerId, Function.comp_def]
  · rintro s ts e s' t - ⟨hroster, hcapacity⟩ henters
    have hts : ts.filterMap Thread.workerId = List.range s.capacity := hroster
    cases henters <;> exact ⟨by simp [Roster, Thread.workerId, hts], hcapacity⟩
  · rintro s l l' t o s' t' - ⟨hroster, hcapacity⟩ - hact
    refine ⟨?_, (capacity_act hact).trans hcapacity⟩
    have hts : (l ++ t :: l').filterMap Thread.workerId = List.range s.capacity := hroster
    simpa [Roster, List.filterMap_append, List.filterMap_cons, workerId_act hact,
      capacity_act hact] using hts

/-- Two workers are different. -/
theorem Roster.others {w : Worker} (h : Roster ⟨s, l ++ .worker id w :: l'⟩) (ht : t ∈ l ++ l') :
    t.workerId ≠ some id := by
  intro hid
  have hts : (l ++ .worker id w :: l').filterMap Thread.workerId = List.range s.capacity := h
  have hnodup : ((l ++ .worker id w :: l').filterMap Thread.workerId).Nodup :=
    hts ▸ List.nodup_range
  have hself : Thread.workerId (.worker id w) = some id := rfl
  rw [List.filterMap_append, List.filterMap_cons_some hself, List.nodup_middle, List.nodup_cons,
    ← List.filterMap_append] at hnodup
  exact hnodup.1 (List.mem_filterMap.2 ⟨t, ht, hid⟩)

theorem Roster.unique {s : State} {w w' : Worker} (h : Roster s) (hw : .worker id w ∈ s.threads)
    (hw' : .worker id w' ∈ s.threads) : w = w' := by
  obtain ⟨s, ts⟩ := s
  obtain ⟨l, l', rfl⟩ := List.append_of_mem hw
  rw [List.mem_append, List.mem_cons] at hw'
  rcases hw' with hl | heq | hr
  · exact absurd rfl (h.others (List.mem_append_left _ hl))
  · cases heq
    rfl
  · exact absurd rfl (h.others (List.mem_append_right _ hr))

theorem Roster.lt {s : State} {w : Worker} (h : Roster s) (hw : .worker id w ∈ s.threads) :
    id < s.shared.capacity := by
  have hmem : id ∈ s.threads.filterMap Thread.workerId := List.mem_filterMap.2 ⟨_, hw, rfl⟩
  rw [h] at hmem
  exact List.mem_range.1 hmem

theorem Roster.exists_worker {s : State} (h : Roster s) (hid : id < s.shared.capacity) :
    ∃ w, .worker id w ∈ s.threads := by
  have hmem : id ∈ s.threads.filterMap Thread.workerId := by
    rw [h]
    exact List.mem_range.2 hid
  obtain ⟨t, ht, hworker⟩ := List.mem_filterMap.1 hmem
  cases t with
  | worker i w =>
    cases hworker
    exact ⟨w, ht⟩
  | spawn t => cases hworker
  | drop t => cases hworker

/-! ## Borrows of the pool -/

def Thread.borrows : Thread → ℕ
  | .spawn .returned => 0
  | .spawn _ => 1
  | _ => 0

/-- A pool that is being dropped is not borrowed, and only its drop shuts it down. -/
structure Lent (s : State) : Prop where
  borrows : Machine.total Thread.borrows s.threads = s.shared.borrows
  dropped : s.shared.dropped = true → s.shared.borrows = 0
  shutdown : s.shared.shutdown = true → s.shared.dropped = true
  drops : ∀ d, .drop d ∈ s.threads → s.shared.dropped = true
  stored : ∀ d, .drop d ∈ s.threads → d = .storing ∨ s.shared.shutdown = true

theorem dropped_act (h : Acts s t s' t') : s'.dropped = s.dropped := by
  cases h <;> rfl

theorem borrows_act (h : Acts s t s' t') :
    (t'.borrows = t.borrows ∧ s'.borrows = s.borrows) ∨
      (t.borrows = 1 ∧ t'.borrows = 0 ∧ s'.borrows = s.borrows - 1) := by
  cases h with
  | notifyOne t i hi => exact .inr ⟨rfl, rfl, rfl⟩
  | _ => exact .inl ⟨rfl, rfl⟩

theorem shutdown_act (h : Acts s t s' t') :
    (s'.shutdown = s.shutdown ∧ t ≠ .drop .storing) ∨
      (s'.shutdown = true ∧ t = .drop .storing ∧ t' = .drop .notifying) := by
  cases h with
  | shutDown => exact .inr ⟨rfl, rfl, rfl⟩
  | _ => exact .inl ⟨rfl, nofun⟩

theorem shutdown_mono (h : Acts s t s' t') (hs : s.shutdown = true) : s'.shutdown = true := by
  rcases shutdown_act h with ⟨heq, -⟩ | ⟨hset, -⟩
  · exact heq.trans hs
  · exact hset

/-- The drop goes on as such, and has stored the flag after its first step. -/
theorem drop_act {d' : Drop} (h : Acts s t s' (.drop d')) :
    ∃ d, t = .drop d ∧ (d = .storing → s'.shutdown = true) := by
  cases h with
  | shutDown => exact ⟨_, rfl, fun _ => rfl⟩
  | notifyAll => exact ⟨_, rfl, nofun⟩
  | join i hexited hmore => exact ⟨_, rfl, nofun⟩
  | allJoined => exact ⟨_, rfl, nofun⟩

theorem Lent.act (h : Lent ⟨s, l ++ t :: l'⟩) (hact : Acts s t s' t') :
    Lent ⟨s', l ++ t' :: l'⟩ := by
  have htotal : Machine.total Thread.borrows (l ++ t :: l') = s.borrows := h.borrows
  simp only [Machine.total_append, Machine.total_cons] at htotal
  have hdrop : ∀ d, .drop d ∈ l ++ t' :: l' → (∃ d', .drop d' ∈ l ++ t :: l') ∧
      (d = .storing ∨ s'.shutdown = true) := by
    intro d hd
    rcases List.mem_append.1 hd with hl | hr
    · refine ⟨⟨d, List.mem_append_left _ hl⟩, ?_⟩
      exact (h.stored d (List.mem_append_left _ hl)).imp_right (shutdown_mono hact)
    · rcases List.mem_cons.1 hr with heq | hr
      · subst heq
        obtain ⟨d', rfl, hset⟩ := drop_act hact
        refine ⟨⟨d', by simp⟩, .inr ?_⟩
        rcases h.stored d' (by simp) with hstoring | hshut
        · exact hset hstoring
        · exact shutdown_mono hact hshut
      · have hmem : .drop d ∈ l ++ t :: l' := by simp [hr]
        exact ⟨⟨d, hmem⟩, (h.stored d hmem).imp_right (shutdown_mono hact)⟩
  refine ⟨?_, ?_, ?_, ?_, fun d hd => (hdrop d hd).2⟩
  · simp only [Machine.total_append, Machine.total_cons]
    rcases borrows_act hact with ⟨ht, hs⟩ | ⟨hone, hzero, hs⟩ <;> omega
  · intro hdropped
    rw [dropped_act hact] at hdropped
    have hzero : s.borrows = 0 := h.dropped hdropped
    rcases borrows_act hact with ⟨-, hs⟩ | ⟨-, -, hs⟩
    · exact hs.trans hzero
    · simp only [hs, hzero]
  · intro hshut
    rw [dropped_act hact]
    rcases shutdown_act hact with ⟨heq, -⟩ | ⟨-, rfl, -⟩
    · exact h.shutdown (heq.symm.trans hshut)
    · exact h.drops .storing (by simp)
  · intro d hd
    obtain ⟨d', hd'⟩ := (hdrop d hd).1
    exact (dropped_act hact).trans (h.drops d' hd')

theorem Lent.env {e : Input} {ts : List Thread} (h : Lent ⟨s, ts⟩) (henters : Enters s e s' t) :
    Lent ⟨s', ts ++ [t]⟩ := by
  have htotal : Machine.total Thread.borrows ts = s.borrows := h.borrows
  cases henters with
  | spawn priority hlive =>
    refine ⟨by simp [htotal, Thread.borrows], ?_, h.shutdown, ?_, ?_⟩
    · intro hdropped
      cases hlive.symm.trans hdropped
    · intro d hd
      exact h.drops d (by simpa using hd)
    · intro d hd
      exact h.stored d (by simpa using hd)
  | drop hlive hfree =>
    refine ⟨by simp [htotal, Thread.borrows], fun _ => hfree, fun _ => rfl, fun _ _ => rfl, ?_⟩
    intro d hd
    rcases List.mem_append.1 hd with hd | hd
    · exact h.stored d hd
    · cases List.mem_singleton.1 hd
      exact .inl rfl

theorem lent_of_run {ok : State → Step → Prop} {capacity : ℕ} {as : List Step} {s : State}
    (h : Run system.step ok (initial capacity) as s) : Lent s := by
  refine invariant_of_run (I := Lent) (J := fun _ => True) h (fun _ _ _ => trivial) ?_ ?_ ?_
  · refine ⟨Machine.total_eq_zero fun t ht => ?_, nofun, nofun, ?_, ?_⟩
    · obtain ⟨id, -, rfl⟩ := List.mem_map.1 ht
      rfl
    · intro d hd
      obtain ⟨id, -, heq⟩ := List.mem_map.1 hd
      cases heq
    · intro d hd
      obtain ⟨id, -, heq⟩ := List.mem_map.1 hd
      cases heq
  · exact fun s ts e s' t _ hs henters => hs.env henters
  · exact fun s l l' t o s' t' _ hs _ hact => hs.act hact

/-- No call of `spawn` is in progress while the pool is being dropped. -/
theorem Lent.not_borrowed {s : State} (h : Lent s) (hdropped : s.shared.dropped = true)
    (ht : t ∈ s.threads) : t.borrows = 0 := by
  have hmem := Machine.le_total (w := Thread.borrows) ht
  have htotal := h.borrows
  have hzero := h.dropped hdropped
  omega

end

end ComputePool
