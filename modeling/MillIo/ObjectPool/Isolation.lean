-- SUMMARY: Holders of pooled objects are isolated: an object has one holder at a time, none is lost or made up, and a byte vector tells its holder nothing of what earlier ones wrote.
import MillIo.ObjectPool.Pool
import MillIo.Interleaving.View
import Mathlib.Data.List.Nodup

/-!
# Isolation of the holders

Who gets which object when is decided without looking at the objects. So the pool over a
type commutes with the pool over the unit type, and what a holder can learn from its
object beyond that is what the reset of `acquire` leaves of it: of a `Vec<u8>`, nothing.
-/

namespace ObjectPool

open Interleaving

/-- The code that may store anything in its object through `as_mut`, as often as it likes,
    and drops it at any time. -/
def asMut (T : Type*) : Holder T Unit T where
  start := ()
  use := fun _ _ value => some ((), value)
  finished := fun _ => true

/-- An `ObjectPool<Vec<u8>>`. -/
def vecPool (createFn : ℕ → List UInt8) : Pool (List UInt8) where
  createFn := createFn
  reset := resetVec

variable {T U η χ : Type*}

namespace PooledObject

/-- The object of a thread. -/
def objects : PooledObject T η → List (Object T)
  | received object => [object]
  | holding _ object => [object]
  | _ => []

def isCreating : PooledObject T η → ℕ
  | creating => 1
  | _ => 0

/-- The thread finds the channel empty. -/
def findsEmpty (s : Shared T) : PooledObject T η → Option Unit
  | acquiring => if s.channel.isEmpty then some () else none
  | _ => none

/-- What `acquire` returns in this thread. -/
def acquired (pool : Pool T) : PooledObject T η → Option (Object T)
  | received object => some { object with value := pool.reset object.value }
  | _ => none

end PooledObject

/-- The objects in the channel and those held. -/
def objects (s : State T η) : List (Object T) :=
  s.shared.channel ++ s.threads.flatMap PooledObject.objects

/-- No two threads have the same object. -/
def HeldOnce (s : State T η) : Prop :=
  ∀ (i j : ℕ) (t t' : PooledObject T η), s.threads[i]? = some t → s.threads[j]? = some t' →
    ∀ object ∈ t.objects, ∀ object' ∈ t'.objects, object.serial = object'.serial → i = j

/-- The objects are the initial ones and one for each of the `misses` of the channel but
    those that are still to be made up for. -/
structure Conserved (initialSize misses : ℕ) (s : State T η) : Prop where
  serials : ((objects s).map Object.serial).Perm (List.range s.shared.created)
  created : s.shared.created + Machine.total PooledObject.isCreating s.threads =
    initialSize + misses

/-- An `acquire` that finds the channel empty. -/
def missesOf (s : State T η) : Step χ → Option Unit
  | .act i _ => s.threads[i]?.bind (PooledObject.findsEmpty s.shared)
  | _ => none

/-- The calls of `acquire` in a history that have found the channel empty. -/
def misses (pool : Pool T) (holder : Holder T η χ) (initialSize : ℕ) (as : List (Step χ)) : ℕ :=
  (outputs (system pool holder).step missesOf (initial pool initialSize) as).length

/-- The thread whose `acquire` returns, with its object. -/
def acquiredOf (pool : Pool T) (s : State T η) : Step χ → Option (ℕ × Object T)
  | .act i _ => (s.threads[i]?.bind (PooledObject.acquired pool)).map fun object => (i, object)
  | _ => none

/-- The objects as `acquire` has returned them in a history, one after the other. -/
def acquired (pool : Pool T) (holder : Holder T η χ) (initialSize : ℕ) (as : List (Step χ)) :
    List (ℕ × Object T) :=
  outputs (system pool holder).step (acquiredOf pool) (initial pool initialSize) as

section Conservation

variable {pool : Pool T} {holder : Holder T η χ} {s s' : Shared T} {t t' : PooledObject T η}
  {l l' : List (PooledObject T η)} {initialSize : ℕ} {as : List (Step χ)}

/-! ## Conservation -/

/-- A step moves objects between the channel and its thread, and adds those it creates. -/
theorem act_count (hact : Acts pool holder s t s' t') (n : ℕ) :
    (s'.channel.map Object.serial).count n + (t'.objects.map Object.serial).count n +
        (List.range s.created).count n =
      (s.channel.map Object.serial).count n + (t.objects.map Object.serial).count n +
        (List.range s'.created).count n := by
  cases hact with
  | receive object channel hfree hchannel =>
    rw [hchannel, List.map_cons, ← List.singleton_append, List.count_append]
    simp only [PooledObject.objects, List.map_cons, List.map_nil, List.count_nil]
    omega
  | lock hfree hempty => rfl
  | create =>
    rw [List.range_succ, List.count_append]
    simp only [PooledObject.objects, List.map_cons, List.map_nil, List.count_nil]
    omega
  | reset object => rfl
  | use state state' object value c huse => rfl
  | drop state object hfinished =>
    simp only [PooledObject.objects, List.map_append, List.map_cons, List.map_nil, List.count_append,
      List.count_nil]
    omega

theorem act_created (hact : Acts pool holder s t s' t') :
    s'.created + t'.isCreating = s.created + t.isCreating + (t.findsEmpty s).toList.length := by
  cases hact with
  | receive object channel hfree hchannel =>
    simp [PooledObject.isCreating, PooledObject.findsEmpty, hchannel]
  | lock hfree hempty => simp [PooledObject.isCreating, PooledObject.findsEmpty, hempty]
  | _ => rfl

theorem objects_at {x : Shared T} (l l' : List (PooledObject T η)) (t : PooledObject T η) (n : ℕ) :
    ((objects ⟨x, l ++ t :: l'⟩).map Object.serial).count n =
      (x.channel.map Object.serial).count n + (t.objects.map Object.serial).count n +
        (((l ++ l').flatMap PooledObject.objects).map Object.serial).count n := by
  simp only [objects, List.flatMap_append, List.flatMap_cons, List.map_append, List.count_append]
  omega

theorem Conserved.step {u v : State T η} {a : Step χ} {m : ℕ} (h : Conserved initialSize m u)
    (hs : (system pool holder).step u a = some v) :
    Conserved initialSize (m + (missesOf u a).toList.length) v := by
  obtain ⟨hserials, hcreated⟩ := h
  rcases Machine.step_cases hs with ⟨e, r, rfl, hr, rfl⟩ | ⟨c, t, ⟨s', t'⟩, l, l', rfl, hts, hr, rfl⟩
  · cases e with
    | acquire =>
      cases hr
      refine ⟨?_, ?_⟩
      · simpa [objects, PooledObject.objects] using hserials
      · simpa [missesOf, PooledObject.isCreating] using hcreated
  · obtain ⟨s, ts⟩ := u
    obtain rfl : ts = l ++ t :: l' := hts
    have hact : Acts pool holder s t s' t' := acts_of_proceed hr
    have hmiss : missesOf ⟨s, l ++ t :: l'⟩ (.act l.length c) = t.findsEmpty s := by
      simp [missesOf]
    rw [List.perm_iff_count] at hserials
    dsimp only at hserials hcreated
    refine ⟨List.perm_iff_count.2 fun n => ?_, ?_⟩
    · have hold := hserials n
      have hmove := act_count hact n
      rw [objects_at] at hold ⊢
      dsimp only
      omega
    · have hmove := act_created hact
      simp only [Machine.total_append, Machine.total_cons] at hcreated ⊢
      rw [hmiss]
      omega

/-- In every history the objects are conserved. -/
theorem conserved_of_run {u : State T η}
    (h : Run (system pool holder).step Unrestricted (initial pool initialSize) as u) :
    Conserved initialSize (misses pool holder initialSize as) u := by
  induction h with
  | refl =>
    refine ⟨?_, rfl⟩
    simp [objects, initial, Function.comp_def]
  | snoc hr _ hs ih =>
    rw [misses, hr.outputs_snoc hs, List.length_append]
    exact ih.step hs

/-- What is conserved is not shared. -/
theorem Conserved.heldOnce {u : State T η} {m : ℕ} (h : Conserved initialSize m u) : HeldOnce u := by
  have hnodup : ((objects u).map Object.serial).Nodup := h.serials.nodup_iff.2 List.nodup_range
  obtain ⟨x, threads⟩ := u
  intro i j t t' ht ht' object hobject object' hobject' heq
  by_contra hne
  obtain ⟨l, l', hts, rfl, -⟩ := Machine.split_at ht
  obtain rfl : threads = l ++ t :: l' := hts
  have hmem := Machine.mem_others (Ne.symm hne) ht'
  -- The serial occurs in this thread and in another one.
  have hown : 0 < (t.objects.map Object.serial).count object.serial :=
    List.count_pos_iff.2 (List.mem_map_of_mem hobject)
  have hother : 0 < (((l ++ l').flatMap PooledObject.objects).map Object.serial).count
      object.serial := by
    rw [heq]
    exact List.count_pos_iff.2 (List.mem_map_of_mem (List.mem_flatMap.2 ⟨t', hmem, hobject'⟩))
  have hone := List.nodup_iff_count_le_one.1 hnodup object.serial
  rw [objects_at] at hone
  omega

end Conservation

/-! ## What the values are for -/

def Object.map (f : T → U) (object : Object T) : Object U :=
  ⟨object.serial, f object.value⟩

def Shared.map (f : T → U) (s : Shared T) : Shared U :=
  ⟨s.channel.map (Object.map f), s.locked, s.created⟩

def PooledObject.map (f : T → U) : PooledObject T η → PooledObject U η
  | acquiring => acquiring
  | creating => creating
  | received object => received (object.map f)
  | holding state object => holding state (object.map f)
  | dropped => dropped

def Choice.map {χ' : Type*} (f : χ → χ') : Choice χ → Choice χ'
  | go => go
  | use c => use (f c)

/-- A step without what it writes. -/
def Step.unwritten : Step T → Step Unit :=
  Action.map id (Choice.map fun _ => ())

/-- A pool of objects that have no contents. -/
def unitPool : Pool Unit where
  createFn := fun _ => ()
  reset := fun _ => ()

section Views

variable {pool : Pool T} {pool' : Pool U} {f : T → U}

theorem acquire_map (s : Shared T) :
    acquire (s.map f) = (acquire s).map
      (Prod.map (Shared.map f) (PooledObject.map f : PooledObject T η → _)) := by
  obtain ⟨channel, locked, created⟩ := s
  cases locked with
  | true => rfl
  | false => cases channel <;> rfl

/-- The values decide nothing: the pool takes the same steps over any image of them. -/
theorem views_map (hcreate : ∀ i, pool'.createFn i = f (pool.createFn i))
    (hreset : ∀ v, pool'.reset (f v) = f (pool.reset v)) :
    Views (system pool (asMut T)).step (system pool' (asMut U)).step
      (Config.map (Shared.map f) (PooledObject.map f)) (Action.map id (Choice.map f)) := by
  refine Machine.views (fun x e => ?_) fun x t c => ?_
  · cases e with
    | acquire => rfl
  · cases t with
    | acquiring =>
      cases c with
      | go => exact acquire_map x
      | use v => rfl
    | creating =>
      cases c with
      | go =>
        simp [system, proceed, PooledObject.map, Choice.map, Shared.map, Object.map, hcreate]
      | use v => rfl
    | received object =>
      cases c with
      | go => simp [system, proceed, PooledObject.map, Choice.map, Object.map, asMut, hreset]
      | use v => rfl
    | holding state object =>
      cases c with
      | go => simp [system, proceed, PooledObject.map, Choice.map, Shared.map, asMut]
      | use v => rfl
    | dropped => cases c <;> rfl

theorem views_unit (pool : Pool T) :
    Views (system pool (asMut T)).step (system unitPool (asMut Unit)).step
      (Config.map (Shared.map fun _ => ()) (PooledObject.map fun _ => ())) Step.unwritten :=
  views_map (fun _ => rfl) fun _ => rfl

/-- An `acquire` that returns its object with this value. -/
def acquiredAs (v : T) (s : State Unit Unit) (a : Step Unit) : Option (ℕ × Object T) :=
  (acquiredOf unitPool s a).map (Prod.map id (Object.map fun _ => v))

/-- If all values are reset to the same, who acquires which object is all there is to
    tell. -/
theorem acquiredOf_unit {v : T} (hreset : ∀ w, pool.reset w = v) (s : State T Unit) (a : Step T) :
    acquiredOf pool s a =
      acquiredAs v (s.map (Shared.map fun _ => ()) (PooledObject.map fun _ => ()))
        (Step.unwritten a) := by
  cases a with
  | env e => rfl
  | act i c =>
    simp only [acquiredAs, acquiredOf, Step.unwritten, Action.map, Config.map, List.getElem?_map]
    cases s.threads[i]? with
    | none => rfl
    | some t =>
      cases t with
      | received object =>
        simp [PooledObject.acquired, PooledObject.map, Object.map, hreset]
      | _ => rfl

/-- Histories that differ in what is written only are histories of the same pools, and the
    same is acquired in them. -/
theorem acquired_eq {v : T} (hreset : ∀ w, pool.reset w = v) {initialSize : ℕ}
    {as as' : List (Step T)} (has : as'.map Step.unwritten = as.map Step.unwritten) :
    acquired pool (asMut T) initialSize as' = acquired pool (asMut T) initialSize as :=
  (views_unit pool).outputs_eq (acquiredOf_unit hreset) rfl has

end Views

/-! ## Isolation -/

/-- No two holders have the same object, and no object is lost or made up. Of byte vectors,
    what is acquired in a history does not depend on what is written in it. -/
theorem isolated_of_run :
    (∀ (T η χ : Type*) (pool : Pool T) (holder : Holder T η χ) (initialSize : ℕ)
      (as : List (Step χ)) (s : State T η),
      Run (system pool holder).step Unrestricted (initial pool initialSize) as s →
        HeldOnce s ∧ Conserved initialSize (misses pool holder initialSize as) s) ∧
    ∀ (createFn : ℕ → List UInt8) (initialSize : ℕ) (as as' : List (Step (List UInt8)))
      (s : State (List UInt8) Unit),
      Run (system (vecPool createFn) (asMut (List UInt8))).step Unrestricted
        (initial (vecPool createFn) initialSize) as s →
      as'.map Step.unwritten = as.map Step.unwritten →
        (∃ s', Run (system (vecPool createFn) (asMut (List UInt8))).step Unrestricted
          (initial (vecPool createFn) initialSize) as' s') ∧
        acquired (vecPool createFn) (asMut (List UInt8)) initialSize as' =
          acquired (vecPool createFn) (asMut (List UInt8)) initialSize as := by
  constructor
  · intro T η χ pool holder initialSize as s h
    have hconserved := conserved_of_run h
    exact ⟨hconserved.heldOnce, hconserved⟩
  · intro createFn initialSize as as' s h has
    obtain ⟨s', hs', -⟩ := (views_unit (vecPool createFn)).alike h rfl has
    exact ⟨⟨s', hs'⟩, acquired_eq (fun _ => rfl) has⟩

/-- The only object of a pool is written and dropped, and is acquired again before a second
    one is created. -/
def rewriting (data : List UInt8) : List (Step (List UInt8)) :=
  [.env .acquire, .act 0 .go, .act 0 .go, .act 0 (.use data), .act 0 .go,
    .env .acquire, .env .acquire, .act 1 .go, .act 1 .go, .act 2 .go, .act 2 .go, .act 2 .go]

theorem isolated_rewriting :
    (∃ s, Run (system (vecPool fun _ => []) (asMut (List UInt8))).step Unrestricted
      (initial (vecPool fun _ => []) 1) (rewriting [1, 2]) s ∧ HeldOnce s ∧ Conserved 1 1 s) ∧
    acquired (vecPool fun _ => []) (asMut (List UInt8)) 1 (rewriting [7]) =
      acquired (vecPool fun _ => []) (asMut (List UInt8)) 1 (rewriting [1, 2]) := by
  obtain ⟨s, hrun⟩ : ∃ s, Run (system (vecPool fun _ => []) (asMut (List UInt8))).step Unrestricted
      (initial (vecPool fun _ => []) 1) (rewriting [1, 2]) s := ⟨_, .of_isSome rfl⟩
  obtain ⟨hconserved, hsame⟩ := isolated_of_run.{0, 0, 0}
  exact ⟨⟨s, hrun, hconserved _ _ _ _ _ _ _ _ hrun⟩,
    (hsame (fun _ => []) 1 (rewriting [1, 2]) (rewriting [7]) s hrun rfl).2⟩

end ObjectPool
