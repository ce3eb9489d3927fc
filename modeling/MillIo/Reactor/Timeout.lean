-- SUMMARY: The reactor never sleeps past a timer: the timeout of its poll covers every live timer unless a wake is on its way.
import MillIo.Reactor.Run

/-!
# The timeout of a poll

The timeout covers all timers that are live when it is computed. Until the poll
returns no tick comes between, so only a schedule adds a timer, and it wakes the
reactor afterwards; the wake stays until the poll reports it.
-/
namespace Reactor

open Interleaving TimerWheel

namespace Thread

/-- The timeout that a loop has computed and polls with. -/
def wait : Thread → Option (Duration × ℕ)
  | loop (.entering timeout evaluated) => some (timeout, evaluated)
  | loop (.polling timeout evaluated) => some (timeout, evaluated)
  | _ => none

/-- A schedule between its insert and its wake. -/
def wakes : Thread → Bool
  | schedule .waking => true
  | _ => false

end Thread

/-- The timeout ends before any live timer is due. -/
def Covers (s : Shared) (timeout : Duration) (evaluated : ℕ) : Prop :=
  ∀ id e, s.wheel.inner.lookup id = some e → timeout ≤ fromMillis (e.deadlineTick - evaluated)

/-- Each timeout covers the live timers, or a wake will end the poll. -/
def Vigilant (s : State) : Prop :=
  ∀ t ∈ s.threads, ∀ w ∈ t.wait, w.1 ≤ fromMillis s.shared.pollTimeoutMs ∧
    (s.shared.awake = true ∨ (∃ t' ∈ s.threads, t'.wakes = true) ∨ Covers s.shared w.1 w.2)

section Timeout

variable {s s' : Shared} {t t' : Thread} {l l' : List Thread} {timeout : Duration} {evaluated : ℕ}

theorem timeoutFor_le (pollTimeoutMs : ℕ) (untilNext : Option Duration) :
    timeoutFor pollTimeoutMs untilNext ≤ fromMillis pollTimeoutMs := by
  cases untilNext with
  | none => exact Nat.le_refl _
  | some d => exact Nat.min_le_right _ _

theorem covers_timeUntilNext (h : s.wheel.inner.Bounded) :
    Covers s (timeoutFor s.pollTimeoutMs (s.wheel.inner.timeUntilNext s.wheel.clock).1)
      (s.wheel.inner.instantToTick s.wheel.clock) := by
  intro id e he
  obtain ⟨d, hd, hle⟩ := h.timeUntilNext_le he s.wheel.clock
  rw [hd]
  exact Nat.le_trans (Nat.min_le_left _ _) hle

/-- What is covered stays covered while no timer becomes live. -/
theorem Covers.mono (h : Covers s timeout evaluated)
    (hlive : ∀ id e, s'.wheel.inner.lookup id = some e → s.wheel.inner.lookup id = some e) :
    Covers s' timeout evaluated :=
  fun id e he => h id e (hlive id e he)

theorem wait_of_not_loops (h : t.loops = 0) : t.wait = none := by
  cases t with
  | loop t => cases t <;> first | rfl | cases h
  | schedule t => rfl
  | stop t => rfl

/-- A step of a loop: the others do not wait. -/
theorem Regular.vigilant (h : Regular ⟨s, l ++ t :: l'⟩) (ht : t.loops = 1)
    (hown : ∀ w ∈ t'.wait, w.1 ≤ fromMillis s'.pollTimeoutMs ∧
      (s'.awake = true ∨ (∃ t'' ∈ l ++ t' :: l', t''.wakes = true) ∨ Covers s' w.1 w.2)) :
    Vigilant ⟨s', l ++ t' :: l'⟩ := by
  refine Machine.forall_threads_at.2 ⟨hown, fun t'' ht'' w hw => ?_⟩
  rw [wait_of_not_loops (h.others ht t'' ht'')] at hw
  cases hw

/-- The timeouts of the other threads are still right. -/
theorem Vigilant.keep (h : Vigilant ⟨s, l ++ t :: l'⟩) (hms : s'.pollTimeoutMs = s.pollTimeoutMs)
    (hown : t'.wait = none)
    (hkeep : ∀ timeout evaluated, (s.awake = true ∨
        (∃ t'' ∈ l ++ t :: l', t''.wakes = true) ∨ Covers s timeout evaluated) →
      s'.awake = true ∨ (∃ t'' ∈ l ++ t' :: l', t''.wakes = true) ∨ Covers s' timeout evaluated) :
    Vigilant ⟨s', l ++ t' :: l'⟩ := by
  refine Machine.forall_threads_at.2 ⟨fun w hw => ?_, fun t'' ht'' w hw => ?_⟩
  · rw [hown] at hw
    cases hw
  · obtain ⟨hle, hcovers⟩ := (Machine.forall_threads_at.1 h).2 t'' ht'' w hw
    simp only [hms]
    exact ⟨hle, hkeep w.1 w.2 hcovers⟩

theorem Vigilant.act (h : Vigilant ⟨s, l ++ t :: l'⟩) (hr : Regular ⟨s, l ++ t :: l'⟩)
    (hacts : Acts s t s' t') : Vigilant ⟨s', l ++ t' :: l'⟩ := by
  cases hacts with
  | evaluate =>
    obtain ⟨earliest, hframe⟩ := s.wheel.inner.timeUntilNext_frame s.wheel.clock
    refine hr.vigilant rfl fun w hw => ?_
    cases hw
    refine ⟨timeoutFor_le _ _, .inr (.inr ((covers_timeUntilNext hr.bounded).mono fun id e he => ?_))⟩
    simp only [hframe] at he
    exact he
  | poll timeout evaluated =>
    refine hr.vigilant rfl fun w hw => ?_
    obtain ⟨hle, hcovers⟩ := (Machine.forall_threads_at.1 h).1 w hw
    refine ⟨hle, hcovers.imp_right fun hrest => hrest.imp_left fun hwakes => ?_⟩
    rcases Machine.exists_threads_at.1 hwakes with hwakes | hwakes
    · cases hwakes
    · exact Machine.exists_threads_at.2 (.inr hwakes)
  | insert id request wheel hcall =>
    exact h.keep rfl rfl fun _ _ _ => .inr (.inl (Machine.exists_threads_at.2 (.inl rfl)))
  | wake => exact h.keep rfl rfl fun _ _ _ => .inl rfl
  | stopWake => exact h.keep rfl rfl fun _ _ _ => .inl rfl
  | stopStore =>
    refine h.keep rfl rfl fun _ _ hexcused => hexcused.imp_right fun hrest => hrest.imp_left
      fun hwakes => ?_
    rcases Machine.exists_threads_at.1 hwakes with hwakes | hwakes
    · cases hwakes
    · exact Machine.exists_threads_at.2 (.inr hwakes)
  | _ => exact hr.vigilant rfl nofun

/-- A thread may enter, and timers may be cancelled. -/
theorem Vigilant.join {ts : List Thread} (h : Vigilant ⟨s, l⟩)
    (hms : s'.pollTimeoutMs = s.pollTimeoutMs) (hawake : s'.awake = s.awake)
    (hlive : ∀ id e, s'.wheel.inner.lookup id = some e → s.wheel.inner.lookup id = some e)
    (hnew : ∀ t ∈ ts, t.wait = none) : Vigilant ⟨s', l ++ ts⟩ := by
  refine List.forall_mem_append.2 ⟨fun t ht w hw => ?_, fun t ht w hw => ?_⟩
  · obtain ⟨hle, hexcused⟩ := h t ht w hw
    simp only [hms, hawake]
    refine ⟨hle, hexcused.imp_right fun hrest => hrest.imp ?_ fun hcovers => hcovers.mono hlive⟩
    exact fun ⟨t', ht', hwakes⟩ => ⟨t', List.mem_append_left _ ht', hwakes⟩
  · rw [hnew t ht] at hw
    cases hw

theorem Vigilant.enter {e : Input} {ts : List Thread} (h : Vigilant ⟨s, l⟩)
    (he : enter s e = some (s', ts)) : Vigilant ⟨s', l ++ ts⟩ := by
  cases e with
  | run =>
    simp only [Reactor.enter] at he
    split at he
    · cases he
    · cases he
      exact h.join rfl rfl (fun _ _ he => he) (by simp [Thread.wait])
  | schedule request =>
    cases he
    exact h.join rfl rfl (fun _ _ he => he) (by simp [Thread.wait])
  | cancel id =>
    cases he
    refine h.join rfl rfl (fun i e he => ?_) (by simp)
    simp only [TimerWheel.enter, WheelInner.cancel_lookup] at he
    split at he
    · cases he
    · exact he
  | stop =>
    cases he
    exact h.join rfl rfl (fun _ _ he => he) (by simp [Thread.wait])
  | elapse d =>
    cases he
    exact h.join rfl rfl (fun _ _ he => he) (by simp)

/-- While the reactor is blocked in a poll, no wake is pending, and no schedule is
    between its insert and its wake, the timeout is at most the configured one, and it
    ends before any live timer is due. -/
theorem sleeps_no_longer_than_timers {start : Instant} {pollTimeoutMs : ℕ} {as : List Step} {s : State}
    (h : Run system.step Unrestricted (initial start pollTimeoutMs) as s)
    (hpolling : .loop (.polling timeout evaluated) ∈ s.threads) (hawake : s.shared.awake = false)
    (hwakes : ∀ t ∈ s.threads, t.wakes = false) :
    timeout ≤ fromMillis s.shared.pollTimeoutMs ∧
      ∀ id e, s.shared.wheel.inner.lookup id = some e →
        timeout ≤ fromMillis (e.deadlineTick - evaluated) := by
  have hvigilant : Vigilant s := by
    refine Machine.invariant_of_run h (fun _ _ hr => regular_of_run hr) (by simp [Vigilant, initial])
      ?_ ?_
    · exact fun x ts e y ts' _ hinv _ he => hinv.enter he
    · exact fun x l l' t c y t' hr hinv _ hact => hinv.act hr (acts_of_proceed hact)
  obtain ⟨hle, hexcused⟩ := hvigilant _ hpolling (timeout, evaluated) rfl
  refine ⟨hle, ?_⟩
  rcases hexcused with hpending | ⟨t, ht, hwaking⟩ | hcovers
  · cases hawake.symm.trans hpending
  · cases (hwakes t ht).symm.trans hwaking
  · exact hcovers

end Timeout

/-- A timer is scheduled after the first timeout has been computed; the wake ends that
    poll, and the reactor polls again. -/
def scheduledWhilePolling : List Step :=
  [.env .run, .act 0 .goes, .act 0 .goes, .act 0 .goes, .env (.schedule (.once (fromMillis 20))),
    .act 0 .goes, .act 1 .goes, .act 1 .goes, .act 0 (.polls 0 true), .act 0 .goes, .act 0 .goes,
    .act 0 .goes, .act 0 .goes, .act 0 .goes, .act 0 .goes, .act 0 .goes]

theorem sleeps_no_longer_than_timers_twenty : ∃ s,
    Run system.step Unrestricted (initial 0 150) scheduledWhilePolling s ∧
    s.shared.wheel.inner.lookup 1 = some ⟨1, 20, .once⟩ ∧
    fromMillis 20 ≤ fromMillis s.shared.pollTimeoutMs ∧
    ∀ id e, s.shared.wheel.inner.lookup id = some e → fromMillis 20 ≤ fromMillis (e.deadlineTick - 0) := by
  have hend : ∃ s, Run system.step Unrestricted (initial 0 150) scheduledWhilePolling s ∧
      .loop (.polling (fromMillis 20) 0) ∈ s.threads ∧ s.shared.awake = false ∧
      (∀ t ∈ s.threads, t.wakes = false) ∧
      s.shared.wheel.inner.lookup 1 = some ⟨1, 20, .once⟩ := Run.exists_of_exec (by decide +kernel)
  obtain ⟨s, hrun, hpolling, hawake, hwakes, hlive⟩ := hend
  exact ⟨s, hrun, hlive, sleeps_no_longer_than_timers hrun hpolling hawake hwakes⟩

end Reactor
