-- SUMMARY: `ThreadPool` of `mill-io/src/thread_pool.rs`: one queue for each worker, filled in turn.
import Mathlib.Algebra.Order.Ring.Nat
import MillIo.Interleaving.Machine
import Mathlib.Data.List.Basic
import Mathlib.Logic.Function.Basic

/-!
# The thread pool

Every worker has a channel of its own, and `exec` sends task after task to the
next worker. A worker runs the tasks of its channel one after the other.
-/

/-- The queues of the workers, and the counter that selects one. -/
structure ThreadPool (τ : Type*) where
  queues : List (List τ)
  nextWorker : ℕ

namespace ThreadPool

open Interleaving

variable {τ : Type*} {p p' : ThreadPool τ} {t u : τ} {worker : ℕ}

def new (capacity : ℕ) : ThreadPool τ := ⟨List.replicate capacity [], 0⟩

/-- Round-robin dispatch. -/
def exec (p : ThreadPool τ) (task : τ) : ThreadPool τ where
  queues := p.queues.modify (p.nextWorker % p.queues.length) (· ++ [task])
  nextWorker := (p.nextWorker + 1) % 2 ^ 64

/-- A task that the model does not follow goes to the next worker. -/
def execOther (p : ThreadPool τ) : ThreadPool τ :=
  { p with nextWorker := (p.nextWorker + 1) % 2 ^ 64 }

/-- `receiver.recv()` of a worker: its oldest task, if there is one. -/
def recv (p : ThreadPool τ) (worker : ℕ) : Option (τ × ThreadPool τ) :=
  match p.queues[worker]? with
  | some (task :: rest) => some (task, { p with queues := p.queues.set worker rest })
  | _ => none

/-- The task waits in one of the queues. -/
def Queued (p : ThreadPool τ) (task : τ) : Prop := ∃ q ∈ p.queues, task ∈ q

/-- No task waits. -/
def Idle (p : ThreadPool τ) : Prop := ∀ q ∈ p.queues, q = []

theorem Idle.not_queued (h : p.Idle) : ¬ p.Queued t := by
  rintro ⟨q, hq, ht⟩
  rw [h q hq] at ht
  cases ht

@[simp] theorem exec_length : (p.exec t).queues.length = p.queues.length := by
  simp [exec]

/-- A pool with at least one worker takes every task. -/
theorem queued_exec (hpos : 0 < p.queues.length) : (p.exec t).Queued t := by
  have hlt := Nat.mod_lt p.nextWorker hpos
  refine ⟨p.queues[p.nextWorker % p.queues.length] ++ [t], ?_, by simp⟩
  rw [List.mem_iff_getElem]
  exact ⟨p.nextWorker % p.queues.length, by simpa using hlt, by simp [exec]⟩

theorem Queued.exec (h : p.Queued u) : (p.exec t).Queued u := by
  obtain ⟨q, hq, hu⟩ := h
  obtain ⟨i, hi, rfl⟩ := List.mem_iff_getElem.1 hq
  by_cases heq : p.nextWorker % p.queues.length = i
  · refine ⟨p.queues[i] ++ [t], ?_, by simp [hu]⟩
    rw [List.mem_iff_getElem]
    exact ⟨i, by simpa using hi, by simp [ThreadPool.exec, heq]⟩
  · refine ⟨p.queues[i], ?_, hu⟩
    rw [List.mem_iff_getElem]
    exact ⟨i, by simpa using hi, by simp [ThreadPool.exec, heq]⟩

/-- A worker receives one task, and all others stay queued. -/
theorem Queued.recv (h : p.Queued u)
    (hrecv : p.recv worker = some (t, p')) : u = t ∨ p'.Queued u := by
  unfold ThreadPool.recv at hrecv
  split at hrecv
  · rename_i task rest hworker
    cases hrecv
    obtain ⟨hlt, hget⟩ := List.getElem?_eq_some_iff.1 hworker
    obtain ⟨q, hq, hu⟩ := h
    obtain ⟨i, hi, rfl⟩ := List.mem_iff_getElem.1 hq
    by_cases heq : worker = i
    · subst heq
      rw [hget] at hu
      refine (List.mem_cons.1 hu).imp_right fun hu => ⟨rest, ?_, hu⟩
      exact List.mem_set hlt _
    · refine .inr ⟨p.queues[i], ?_, hu⟩
      rw [List.mem_iff_getElem]
      exact ⟨i, by simpa using hi, by simp [heq]⟩
  · cases hrecv

/-! ## The channel of a worker -/

/-- What waits for a worker. -/
def queue (p : ThreadPool τ) (worker : ℕ) : List τ := p.queues[worker]?.getD []

def send (p : ThreadPool τ) (worker : ℕ) (task : τ) : ThreadPool τ :=
  { p with queues := p.queues.modify worker (· ++ [task]) }

/-- The receiver of a worker is dropped, and what waits in its channel with it. -/
def close (p : ThreadPool τ) (worker : ℕ) : ThreadPool τ :=
  { p with queues := p.queues.set worker [] }

/-- How many tasks wait. -/
def waiting (p : ThreadPool τ) : ℕ := Machine.total List.length p.queues

/-- `exec` draws the number of the next worker and sends the task to it. -/
theorem exec_eq_send :
    p.exec t = p.execOther.send (p.nextWorker % p.queues.length) t := rfl

@[simp] theorem send_length : (p.send worker t).queues.length = p.queues.length := by
  simp [send]

@[simp] theorem close_length : (p.close worker).queues.length = p.queues.length := by
  simp [close]

theorem recv_length (h : p.recv worker = some (t, p')) : p'.queues.length = p.queues.length := by
  unfold recv at h
  split at h
  · cases h
    simp
  · cases h

theorem queue_send (h : worker < p.queues.length) :
    (p.send worker t).queue = Function.update p.queue worker (p.queue worker ++ [t]) := by
  funext i
  by_cases heq : i = worker
  · subst heq
    simp [queue, send, h]
  · simp [queue, send, Function.update_of_ne heq, Ne.symm heq]

theorem queue_close : (p.close worker).queue = Function.update p.queue worker [] := by
  funext i
  by_cases heq : i = worker
  · subst heq
    by_cases hlt : i < p.queues.length
    · simp [queue, close, hlt]
    · simp [queue, close, hlt]
  · simp [queue, close, Function.update_of_ne heq, Ne.symm heq]

theorem queue_recv (h : p.recv worker = some (t, p')) :
    p.queue worker = t :: p'.queue worker ∧
      p'.queue = Function.update p.queue worker (p'.queue worker) := by
  unfold recv at h
  split at h
  · rename_i task rest hworker
    cases h
    obtain ⟨hlt, hget⟩ := List.getElem?_eq_some_iff.1 hworker
    refine ⟨by simp [queue, hlt, hget], ?_⟩
    funext i
    by_cases heq : i = worker
    · subst heq
      simp
    · simp [queue, Function.update_of_ne heq, Ne.symm heq]
  · cases h

/-- A worker with something in its channel receives it. -/
theorem exists_recv (h : p.queue worker ≠ []) : ∃ r, p.recv worker = some r := by
  unfold queue at h
  unfold recv
  cases hworker : p.queues[worker]? with
  | none => simp [hworker] at h
  | some q =>
    cases q with
    | nil => simp [hworker] at h
    | cons task rest => exact ⟨_, rfl⟩

theorem waiting_send (h : worker < p.queues.length) :
    (p.send worker t).waiting = p.waiting + 1 := by
  obtain ⟨l, r, hqueues, hlength, hset⟩ := Machine.split_at (List.getElem?_eq_getElem h)
  have hmodify : p.queues.modify worker (· ++ [t]) = l ++ (p.queues[worker] ++ [t]) :: r := by
    rw [← hset, List.modify_eq_set_getElem?]
    simp [h]
  simp only [waiting, send, hmodify]
  conv_rhs => rw [hqueues]
  simp only [Machine.total_append, Machine.total_cons, List.length_append, List.length_singleton]
  omega

theorem waiting_close : (p.close worker).waiting ≤ p.waiting := by
  by_cases h : worker < p.queues.length
  · obtain ⟨l, r, hqueues, hlength, hset⟩ := Machine.split_at (List.getElem?_eq_getElem h)
    simp only [waiting, close, hset]
    conv_rhs => rw [hqueues]
    simp only [Machine.total_append, Machine.total_cons, List.length_nil]
    omega
  · rw [close, List.set_eq_of_length_le (Nat.le_of_not_lt h)]

theorem waiting_recv (h : p.recv worker = some (t, p')) : p.waiting = p'.waiting + 1 := by
  unfold recv at h
  split at h
  · rename_i task rest hworker
    cases h
    obtain ⟨l, r, hqueues, hlength, hset⟩ := Machine.split_at hworker
    simp only [waiting, hset]
    rw [hqueues]
    simp only [Machine.total_append, Machine.total_cons, List.length_cons]
    omega
  · cases h

end ThreadPool
