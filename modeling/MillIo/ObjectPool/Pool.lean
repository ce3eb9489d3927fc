-- SUMMARY: `ObjectPool` of `mill-io/src/object_pool.rs`: holders that acquire, use and drop objects, interleaved at their atomic steps.
import MillIo.Interleaving.Machine

/-!
# The object pool

A thread is one `PooledObject`, from the call of `acquire` on any clone of the pool to
its drop. Objects that are not held wait in a channel. Its receiver is behind a lock,
which `acquire` keeps while it creates an object because the channel is empty; a drop
sends without the lock. The pool has a sender itself, so `try_recv` never finds the
channel disconnected.
-/

namespace ObjectPool

open Interleaving

/-- The length to which `acquire` resizes a `Vec<u8>`. -/
def ioBufferSize : ℕ := 8192

/-- An object, known by the number of the call of `create_fn` that made it. -/
structure Object (T : Type*) where
  serial : ℕ
  value : T

/-- An `ObjectPool`: `create_fn`, by the number of its call, and what `acquire` does to an object of the
    type before it hands it out. -/
structure Pool (T : Type*) where
  createFn : ℕ → T
  reset : T → T

/-- What the clones of a pool share. -/
structure Shared (T : Type*) where
  channel : List (Object T)
  locked : Bool
  created : ℕ

/-- The code that has a `PooledObject` in scope: each use may change the object, and the
    object is dropped when the code has finished. -/
structure Holder (T η χ : Type*) where
  start : η
  use : η → T → χ → Option (η × T)
  finished : η → Bool

inductive PooledObject (T η : Type*)
  /-- In `acquire`, before the lock. -/
  | acquiring
  /-- Has found the channel empty, with the lock. -/
  | creating
  /-- Has an object, and has given the lock up. -/
  | received (object : Object T)
  | holding (state : η) (object : Object T)
  | dropped

inductive Invocation
  | acquire
  deriving DecidableEq

/-- What is left open in the steps of a thread. -/
inductive Choice (χ : Type*)
  | go
  | use (c : χ)
  deriving DecidableEq

/-- `Vec::resize`. -/
def resize (v : List UInt8) (newLen : ℕ) (value : UInt8) : List UInt8 :=
  v.take newLen ++ List.replicate (newLen - v.length) value

/-- What `acquire` does to a `Vec<u8>`: `clear` and `resize`. Objects of other types stay
    as they are. -/
def resetVec (_ : List UInt8) : List UInt8 := resize [] ioBufferSize 0

theorem length_resize (v : List UInt8) (newLen : ℕ) (value : UInt8) :
    (resize v newLen value).length = newLen := by
  simp only [resize, List.length_append, List.length_take, List.length_replicate]
  omega

theorem length_resetVec (v : List UInt8) : (resetVec v).length = ioBufferSize :=
  length_resize [] ioBufferSize 0

variable {T η χ : Type*}

def acquire (s : Shared T) : Option (Shared T × PooledObject T η) :=
  if s.locked then none
  else match s.channel with
    | object :: channel => some ({ s with channel := channel }, .received object)
    | [] => some ({ s with locked := true }, .creating)

def proceed (pool : Pool T) (holder : Holder T η χ) (s : Shared T) :
    PooledObject T η → Choice χ → Option (Shared T × PooledObject T η)
  | .acquiring, .go => acquire s
  | .creating, .go =>
    some ({ s with locked := false, created := s.created + 1 },
      .received ⟨s.created, pool.createFn s.created⟩)
  | .received object, .go =>
    some (s, .holding holder.start { object with value := pool.reset object.value })
  | .holding state object, .use c =>
    (holder.use state object.value c).map fun r => (s, .holding r.1 { object with value := r.2 })
  | .holding state object, .go =>
    if holder.finished state then some ({ s with channel := s.channel ++ [object] }, .dropped)
    else none
  | _, _ => none

def system (pool : Pool T) (holder : Holder T η χ) :
    Machine (Shared T) (PooledObject T η) Invocation (Choice χ) where
  env s invocation := match invocation with
    | .acquire => some (s, [.acquiring])
  act := proceed pool holder

abbrev State (T η : Type*) := Config (Shared T) (PooledObject T η)

abbrev Step (χ : Type*) := Action Invocation (Choice χ)

/-- `ObjectPool::new` fills the channel. -/
def initial (pool : Pool T) (initialSize : ℕ) : State T η :=
  ⟨⟨(List.range initialSize).map fun i => ⟨i, pool.createFn i⟩, false, initialSize⟩, []⟩

/-! ## What a holder can do -/

inductive Acts (pool : Pool T) (holder : Holder T η χ) (s : Shared T) :
    PooledObject T η → Shared T → PooledObject T η → Prop
  | receive (object : Object T) (channel : List (Object T)) (hfree : s.locked = false)
      (hchannel : s.channel = object :: channel) :
      Acts pool holder s .acquiring { s with channel := channel } (.received object)
  | lock (hfree : s.locked = false) (hempty : s.channel = []) :
      Acts pool holder s .acquiring { s with locked := true } .creating
  | create :
      Acts pool holder s .creating { s with locked := false, created := s.created + 1 }
        (.received ⟨s.created, pool.createFn s.created⟩)
  | reset (object : Object T) :
      Acts pool holder s (.received object) s
        (.holding holder.start { object with value := pool.reset object.value })
  | use (state state' : η) (object : Object T) (value : T) (c : χ)
      (huse : holder.use state object.value c = some (state', value)) :
      Acts pool holder s (.holding state object) s
        (.holding state' { object with value := value })
  | drop (state : η) (object : Object T) (hfinished : holder.finished state = true) :
      Acts pool holder s (.holding state object) { s with channel := s.channel ++ [object] } .dropped

section Pool

variable {pool : Pool T} {holder : Holder T η χ} {s s' : Shared T} {t t' : PooledObject T η}
  {c : Choice χ}

theorem acts_of_proceed (h : proceed pool holder s t c = some (s', t')) :
    Acts pool holder s t s' t' := by
  unfold proceed at h
  split at h
  · unfold acquire at h
    split at h
    · cases h
    · rename_i hfree
      have hfree := Bool.not_eq_true _ ▸ hfree
      split at h
      · rename_i object channel hchannel
        cases h
        exact .receive object channel hfree hchannel
      · rename_i hempty
        cases h
        exact .lock hfree hempty
  · cases h
    exact .create
  · cases h
    exact .reset _
  · obtain ⟨⟨state', value⟩, huse, heq⟩ := Option.map_eq_some_iff.1 h
    cases heq
    exact .use _ _ _ _ _ huse
  · split at h
    · rename_i hfinished
      cases h
      exact .drop _ _ hfinished
    · cases h
  · cases h

/-- What `acquire` establishes and every use keeps holds of all objects that are held,
    whatever has happened to them before. -/
theorem held_of_run {P : T → Prop} (hreset : ∀ v, P (pool.reset v))
    (huse : ∀ state v c state' v', holder.use state v c = some (state', v') → P v → P v')
    {ok : State T η → Step χ → Prop} {initialSize : ℕ} {as : List (Step χ)} {s : State T η}
    (h : Run (system pool holder).step ok (initial pool initialSize) as s) :
    ∀ t ∈ s.threads, ∀ state object, t = .holding state object → P object.value := by
  refine Machine.invariant_of_run (J := fun _ => True)
    (I := fun s => ∀ t ∈ s.threads, ∀ state object, t = .holding state object → P object.value)
    h (fun _ _ _ => trivial) (by simp [initial]) ?_ ?_
  · intro x ts e y ts' _ hheld _ he
    cases e with
    | acquire =>
      cases he
      exact List.forall_mem_append.2 ⟨hheld, List.forall_mem_singleton.2 nofun⟩
  · intro x l l' t c y t' _ hheld _ hr
    obtain ⟨hown, hrest⟩ := Machine.forall_threads_at.1 hheld
    refine Machine.forall_threads_at.2 ⟨?_, hrest⟩
    cases acts_of_proceed hr with
    | receive => exact nofun
    | lock => exact nofun
    | create => exact nofun
    | reset object =>
      intro state o heq
      cases heq
      exact hreset object.value
    | use state state' object value c hstep =>
      intro st o heq
      cases heq
      exact huse state object.value c state' value hstep (hown state object rfl)
    | drop => exact nofun

end Pool

end ObjectPool
