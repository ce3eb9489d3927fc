-- SUMMARY: Threads with stacks of calls over mutexes that are not reentrant: what each thread holds, budgets of what frames carry, and that a thread which waits for a mutex of its own waits for ever.
import MillIo.Interleaving.Lock
import Mathlib.Data.Bool.Basic

/-!
# Call stacks and mutexes

The code of a frame is a flow chart: its next instruction locks or unlocks a mutex,
is in a callback, branches over the shared data, or returns. While a frame is in a
callback the callback may call an operation, whose frame goes on top of the stack. A
mutex that is taken stops every thread that wants it, the one that holds it not
excepted.
-/

namespace Interleaving

/-- What a frame does next. -/
inductive Instr (σ μ φ χ : Type*)
  | lock (m : μ) (next : φ)
  | unlock (m : μ) (next : φ)
  /-- The frame is in a callback, and goes on by what the callback returns. -/
  | callback (ok failed : φ)
  | branch (next : σ → χ → Option (σ × φ))
  | ret

/-- The code of the frames, the first frames of operations and those of new threads. -/
structure Code (σ μ φ χ ω ε : Type*) where
  instr : φ → Instr σ μ φ χ
  entry : ω → φ
  root : ε → φ

/-- The shared data, and which mutexes are taken. -/
structure Locks (σ μ : Type*) where
  data : σ
  locked : μ → Bool

/-- The mutexes that a thread holds, and its frames from the innermost on. -/
structure CallStack (μ φ : Type*) where
  held : List μ
  frames : List φ

/-- What is left open in the step of a thread. -/
inductive Move (χ ω : Type*)
  | go
  | enter (op : ω)
  | returns (ok : Bool)
  | choose (c : χ)
  deriving DecidableEq

namespace Code

variable {σ μ φ χ ω ε : Type*} [DecidableEq μ] (c : Code σ μ φ χ ω ε)

/-- A step of the frame `f` over the frames `rest`. -/
def proceed (s : Locks σ μ) (held : List μ) (f : φ) (rest : List φ) :
    Instr σ μ φ χ → Move χ ω → Option (Locks σ μ × CallStack μ φ)
  | .lock m next, .go =>
    if s.locked m then none
    else some (⟨s.data, Function.update s.locked m true⟩, ⟨m :: held, next :: rest⟩)
  | .unlock m next, .go =>
    some (⟨s.data, Function.update s.locked m false⟩, ⟨held.erase m, next :: rest⟩)
  | .callback _ _, .enter op => some (s, ⟨held, c.entry op :: f :: rest⟩)
  | .callback ok failed, .returns b => some (s, ⟨held, (if b then ok else failed) :: rest⟩)
  | .branch next, .choose o =>
    (next s.data o).map fun r => (⟨r.1, s.locked⟩, ⟨held, r.2 :: rest⟩)
  | .ret, .go => some (s, ⟨held, rest⟩)
  | _, _ => none

def act (s : Locks σ μ) (t : CallStack μ φ) (a : Move χ ω) : Option (Locks σ μ × CallStack μ φ) :=
  match t.frames with
  | [] => none
  | f :: rest => c.proceed s t.held f rest (c.instr f) a

def system : Machine (Locks σ μ) (CallStack μ φ) ε (Move χ ω) where
  env s e := some (s, [⟨[], [c.root e]⟩])
  act := c.act

/-- No thread, and all mutexes free. -/
def initial (μ φ : Type*) (data : σ) : Config (Locks σ μ) (CallStack μ φ) := ⟨⟨data, fun _ => false⟩, []⟩

/-- The mutex that a frame is about to lock. -/
def wants (f : φ) : Option μ :=
  match c.instr f with
  | .lock m _ => some m
  | _ => none

omit [DecidableEq μ] in
theorem wants_eq_some_iff {f : φ} {m : μ} : c.wants f = some m ↔ ∃ next, c.instr f = .lock m next := by
  unfold wants
  cases c.instr f <;> simp

/-! ## Inversion -/

/-- All that a thread can do. -/
inductive Acts (s : Locks σ μ) : CallStack μ φ → Move χ ω → Locks σ μ → CallStack μ φ → Prop
  | lock {held rest f m next} (hinstr : c.instr f = .lock m next) (hfree : s.locked m = false) :
      Acts s ⟨held, f :: rest⟩ .go ⟨s.data, Function.update s.locked m true⟩ ⟨m :: held, next :: rest⟩
  | unlock {held rest f m next} (hinstr : c.instr f = .unlock m next) :
      Acts s ⟨held, f :: rest⟩ .go ⟨s.data, Function.update s.locked m false⟩
        ⟨held.erase m, next :: rest⟩
  | enter {held rest f ok failed} (op : ω) (hinstr : c.instr f = .callback ok failed) :
      Acts s ⟨held, f :: rest⟩ (.enter op) s ⟨held, c.entry op :: f :: rest⟩
  | returns {held rest f ok failed} (b : Bool) (hinstr : c.instr f = .callback ok failed) :
      Acts s ⟨held, f :: rest⟩ (.returns b) s ⟨held, (if b then ok else failed) :: rest⟩
  | branch {held rest f next o data f'} (hinstr : c.instr f = .branch next)
      (hnext : next s.data o = some (data, f')) :
      Acts s ⟨held, f :: rest⟩ (.choose o) ⟨data, s.locked⟩ ⟨held, f' :: rest⟩
  | ret {held rest f} (hinstr : c.instr f = .ret) :
      Acts s ⟨held, f :: rest⟩ .go s ⟨held, rest⟩

theorem acts_of_act {s s' : Locks σ μ} {t t' : CallStack μ φ} {a : Move χ ω}
    (h : c.act s t a = some (s', t')) : c.Acts s t a s' t' := by
  obtain ⟨held, frames⟩ := t
  cases frames with
  | nil => cases h
  | cons f rest =>
    change c.proceed s held f rest (c.instr f) a = some (s', t') at h
    cases hinstr : c.instr f with
    | lock m next =>
      cases a <;> simp only [hinstr, proceed, reduceCtorEq] at h
      split at h
      · cases h
      · rename_i hfree
        obtain ⟨rfl, rfl⟩ := Prod.mk.inj (Option.some.inj h)
        exact .lock hinstr (eq_false_of_ne_true hfree)
    | unlock m next =>
      cases a <;> simp only [hinstr, proceed, reduceCtorEq] at h
      obtain ⟨rfl, rfl⟩ := Prod.mk.inj (Option.some.inj h)
      exact .unlock hinstr
    | callback ok failed =>
      cases a <;> simp only [hinstr, proceed, reduceCtorEq] at h
      · obtain ⟨rfl, rfl⟩ := Prod.mk.inj (Option.some.inj h)
        exact .enter _ hinstr
      · obtain ⟨rfl, rfl⟩ := Prod.mk.inj (Option.some.inj h)
        exact .returns _ hinstr
    | branch next =>
      cases a <;> simp only [hinstr, proceed, reduceCtorEq] at h
      obtain ⟨⟨data, f'⟩, hnext, heq⟩ := Option.map_eq_some_iff.1 h
      obtain ⟨rfl, rfl⟩ := Prod.mk.inj heq
      exact .branch hinstr hnext
    | ret =>
      cases a <;> simp only [hinstr, proceed, reduceCtorEq] at h
      obtain ⟨rfl, rfl⟩ := Prod.mk.inj (Option.some.inj h)
      exact .ret hinstr

/-- What holds at first, and is kept by new threads and by what each thread can do, holds
    all along a run. -/
theorem invariant_of_run {ok : Config (Locks σ μ) (CallStack μ φ) → Action ε (Move χ ω) → Prop}
    {I J : Config (Locks σ μ) (CallStack μ φ) → Prop} {data : σ} {as : List (Action ε (Move χ ω))}
    {u : Config (Locks σ μ) (CallStack μ φ)} (h : Run c.system.step ok (initial μ φ data) as u)
    (hJ : ∀ as u, Run c.system.step ok (initial μ φ data) as u → J u) (h0 : I (initial μ φ data))
    (henv : ∀ s ts e, I ⟨s, ts⟩ → I ⟨s, ts ++ [⟨[], [c.root e]⟩]⟩)
    (hact : ∀ s l l' t a s' t', J ⟨s, l ++ t :: l'⟩ → I ⟨s, l ++ t :: l'⟩ → c.Acts s t a s' t' →
      I ⟨s', l ++ t' :: l'⟩) : I u := by
  refine Machine.invariant_of_run h hJ h0 ?_ ?_
  · intro s ts e s' ts' _ hI _ hr
    obtain ⟨rfl, rfl⟩ := Prod.mk.inj (Option.some.inj hr)
    exact henv s ts e hI
  · intro s l l' t a s' t' hJt hI _ hr
    exact hact s l l' t a s' t' hJt hI (c.acts_of_act hr)

/-! ## What a thread holds -/

end Code

/-- `holds` follows the instruction of the frame `f`. Guards are released in the reverse
    order. -/
def Instr.Follows {σ μ φ χ : Type*} (holds : φ → List μ) (f : φ) : Instr σ μ φ χ → Prop
  | .lock m next => holds next = m :: holds f
  | .unlock m next => holds f = m :: holds next
  | .callback ok failed => holds ok = holds f ∧ holds failed = holds f
  | .branch next => ∀ s o s' f', next s o = some (s', f') → holds f' = holds f
  | .ret => holds f = []

namespace Code

variable {σ μ φ χ ω ε : Type*} [DecidableEq μ] {c : Code σ μ φ χ ω ε} {holds : φ → List μ}
  {s s' : Locks σ μ} {t t' : CallStack μ φ} {a : Move χ ω} {data : σ}
  {as bs : List (Action ε (Move χ ω))} {u v : Config (Locks σ μ) (CallStack μ φ)}
  {ok ok' : Config (Locks σ μ) (CallStack μ φ) → Action ε (Move χ ω) → Prop}

/-- The mutexes that the code of each frame has locked and not yet unlocked are known. -/
structure Follows (c : Code σ μ φ χ ω ε) (holds : φ → List μ) : Prop where
  instr : ∀ f, (c.instr f).Follows holds f
  entry : ∀ op, holds (c.entry op) = []
  root : ∀ e, holds (c.root e) = []

/-- The thread holds what its frames hold, and all frames but the innermost are in
    callbacks. -/
structure Accounted (c : Code σ μ φ χ ω ε) (holds : φ → List μ) (t : CallStack μ φ) : Prop where
  held : t.held = t.frames.flatMap holds
  suspended : ∀ f ∈ t.frames.tail, ∃ ok failed, c.instr f = .callback ok failed

namespace Follows

section

omit [DecidableEq μ]

theorem lock (h : c.Follows holds) {f next : φ} {m : μ} (hinstr : c.instr f = .lock m next) :
    holds next = m :: holds f := by
  have hf := h.instr f
  rwa [hinstr] at hf

theorem unlock (h : c.Follows holds) {f next : φ} {m : μ} (hinstr : c.instr f = .unlock m next) :
    holds f = m :: holds next := by
  have hf := h.instr f
  rwa [hinstr] at hf

theorem returns (h : c.Follows holds) {f ok failed : φ} (hinstr : c.instr f = .callback ok failed)
    (b : Bool) : holds (if b then ok else failed) = holds f := by
  have hf := h.instr f
  rw [hinstr] at hf
  cases b
  · exact hf.2
  · exact hf.1

theorem branch (h : c.Follows holds) {f f' : φ} {next : σ → χ → Option (σ × φ)} {data data' : σ}
    {o : χ} (hinstr : c.instr f = .branch next) (hnext : next data o = some (data', f')) :
    holds f' = holds f := by
  have hf := h.instr f
  rw [hinstr] at hf
  exact hf data o data' f' hnext

theorem ret (h : c.Follows holds) {f : φ} (hinstr : c.instr f = .ret) : holds f = [] := by
  have hf := h.instr f
  rwa [hinstr] at hf

end

theorem accounted (h : c.Follows holds) (ht : c.Accounted holds t) (hacts : c.Acts s t a s' t') :
    c.Accounted holds t' := by
  obtain ⟨hheld, hsuspended⟩ := ht
  cases hacts with
  | lock hinstr _ =>
    refine ⟨?_, hsuspended⟩
    simp only [List.flatMap_cons] at hheld ⊢
    rw [hheld, h.lock hinstr, List.cons_append]
  | unlock hinstr =>
    refine ⟨?_, hsuspended⟩
    simp only [List.flatMap_cons] at hheld ⊢
    rw [hheld, h.unlock hinstr, List.cons_append, List.erase_cons_head]
  | @enter held rest f ok failed op hinstr =>
    refine ⟨?_, List.forall_mem_cons.2 ⟨⟨ok, failed, hinstr⟩, hsuspended⟩⟩
    rw [List.flatMap_cons, h.entry, List.nil_append]
    exact hheld
  | returns b hinstr =>
    refine ⟨?_, hsuspended⟩
    simp only [List.flatMap_cons] at hheld ⊢
    rw [hheld, h.returns hinstr]
  | branch hinstr hnext =>
    refine ⟨?_, hsuspended⟩
    simp only [List.flatMap_cons] at hheld ⊢
    rw [hheld, h.branch hinstr hnext]
  | ret hinstr =>
    refine ⟨?_, fun g hg => hsuspended g (List.mem_of_mem_tail hg)⟩
    simpa [h.ret hinstr] using hheld

theorem accounted_of_run (h : c.Follows holds)
    (hrun : Run c.system.step ok (initial μ φ data) as u) : ∀ t ∈ u.threads, c.Accounted holds t := by
  refine c.invariant_of_run (I := fun u => ∀ t ∈ u.threads, c.Accounted holds t)
    (J := fun _ => True) hrun (fun _ _ _ => trivial) ?_ ?_ ?_
  · intro t ht
    cases ht
  · intro s ts e hI
    refine List.forall_mem_append.2 ⟨hI, List.forall_mem_singleton.2 ⟨?_, fun f hf => ?_⟩⟩
    · simp [h.root]
    · cases hf
  · intro s l l' t a s' t' _ hI hacts
    obtain ⟨ht, hrest⟩ := Machine.forall_threads_at.1 hI
    exact Machine.forall_threads_at.2 ⟨h.accounted ht hacts, hrest⟩

/-! ## Waiting for oneself -/

/-- No mutex is held by two threads, or twice by one. -/
theorem guarded (h : c.Follows holds) (hrun : Run c.system.step ok (initial μ φ data) as u) (m : μ) :
    Guarded (fun t : CallStack μ φ => t.held.count m) (fun s : Locks σ μ => s.locked m) u := by
  refine c.invariant_of_run
    (I := Guarded (fun t : CallStack μ φ => t.held.count m) (fun s : Locks σ μ => s.locked m))
    hrun (fun as u hr => h.accounted_of_run hr) rfl ?_ ?_
  · intro s ts e hI
    exact hI.env rfl (List.forall_mem_singleton.2 rfl)
  · intro s l l' t a s' t' haccounted hI hacts
    refine hI.act ?_
    have hheld := (haccounted t (by simp)).held
    cases hacts with
    | @lock held rest f m' next hinstr hfree =>
      by_cases hm : m' = m
      · subst hm
        simp [hfree]
      · simp [hm, Function.update_of_ne (Ne.symm hm)]
    | @unlock held rest f m' next hinstr =>
      by_cases hm : m' = m
      · subst hm
        simp only [List.flatMap_cons, h.unlock hinstr, List.cons_append] at hheld
        have hone : held.count m' = 1 := by
          have hpos : 0 < held.count m' := by
            rw [List.count_pos_iff, hheld]
            exact List.mem_cons_self ..
          have hle : held.count m' ≤ 1 := hI.le_one ⟨held, f :: rest⟩ (by simp)
          omega
        refine .inr ⟨hone, ?_, Function.update_self ..⟩
        rw [List.count_erase_self, hone]
      · simp [List.count_erase_of_ne (Ne.symm hm), Function.update_of_ne (Ne.symm hm)]
    | enter op hinstr => exact .inl rfl
    | returns b hinstr => exact .inl rfl
    | branch hinstr hnext => exact .inl rfl
    | ret hinstr => exact .inl rfl

/-- What a thread holds is taken. -/
theorem locked (h : c.Follows holds) (hrun : Run c.system.step ok (initial μ φ data) as u)
    (ht : t ∈ u.threads) {m : μ} (hm : m ∈ t.held) : u.shared.locked m = true := by
  have hguarded := h.guarded hrun m
  have hpos := List.count_pos_iff.2 hm
  have hle := hguarded.le_one t ht
  exact hguarded.taken ht (by omega)

/-- A thread whose innermost frame is about to lock a mutex that the thread holds is
    stopped for good. -/
theorem waits_for_ever (h : c.Follows holds) (hrun : Run c.system.step ok (initial μ φ data) as u)
    {i : ℕ} (ht : u.threads[i]? = some t) {f : φ} {m : μ} (hf : t.frames.head? = some f)
    (hwants : c.wants f = some m) (hm : m ∈ t.held) (hafter : Run c.system.step ok u bs v) :
    v.threads[i]? = some t := by
  refine hafter.invariant_of (I := fun v => v.threads[i]? = some t)
    (J := fun v => ∃ as, Run c.system.step ok (initial μ φ data) as v)
    (fun bs v hv => ⟨_, hrun.trans hv⟩) ht fun w b x hw hwt _ hs => ?_
  obtain ⟨bs', hw⟩ := hw
  cases b with
  | env e =>
    obtain ⟨r, hr, rfl⟩ := Machine.step_env_iff.1 hs
    exact (List.getElem?_append_left (List.getElem?_eq_some_iff.1 hwt).1).trans hwt
  | act j o =>
    obtain ⟨t', ⟨s'', t''⟩, hj, hr, rfl⟩ := Machine.step_act_iff.1 hs
    rcases eq_or_ne j i with rfl | hne
    · obtain rfl : t' = t := Option.some.inj (hj.symm.trans hwt)
      obtain ⟨next, hinstr⟩ := c.wants_eq_some_iff.1 hwants
      have htaken := h.locked hw (List.mem_of_getElem? hwt) hm
      cases c.acts_of_act hr with
      | lock hinstr' hfree =>
        cases hf
        cases hinstr.symm.trans hinstr'
        rw [hfree] at htaken
        cases htaken
      | unlock hinstr' | enter _ hinstr' | returns _ hinstr' | branch hinstr' _ | ret hinstr' =>
        cases hf
        cases hinstr.symm.trans hinstr'
    · rw [List.getElem?_set_ne hne]
      exact hwt

end Follows

end Code

/-! ## Frames that clash -/

/-- `R` holds of all frames that the instruction goes on with. -/
def Instr.Leads {σ μ φ χ : Type*} (R : φ → Prop) : Instr σ μ φ χ → Prop
  | .lock _ next => R next
  | .unlock _ next => R next
  | .callback ok failed => R ok ∧ R failed
  | .branch next => ∀ s o s' f', next s o = some (s', f') → R f'
  | .ret => True

theorem Instr.Leads.mono {σ μ φ χ : Type*} {R R' : φ → Prop} {i : Instr σ μ φ χ} (h : i.Leads R)
    (hR : ∀ f, R f → R' f) : i.Leads R' := by
  cases i with
  | lock m next => exact hR _ h
  | unlock m next => exact hR _ h
  | callback ok failed => exact ⟨hR _ h.1, hR _ h.2⟩
  | branch next => exact fun s o s' f' hnext => hR _ (h s o s' f' hnext)
  | ret => trivial

namespace Code

variable {σ μ φ χ ω ε : Type*} [DecidableEq μ] {c : Code σ μ φ χ ω ε} {R clash : φ → φ → Prop}
  {s s' : Locks σ μ} {t t' : CallStack μ φ} {a : Move χ ω} {u v : Config (Locks σ μ) (CallStack μ φ)}

/-- A frame of the thread was there before, follows one that was, or has just been called. -/
theorem Acts.mem_frames (hR : ∀ f, (c.instr f).Leads (R f)) (h : c.Acts s t a s' t') {f' : φ}
    (hf' : f' ∈ t'.frames) :
    f' ∈ t.frames ∨ (∃ f ∈ t.frames, R f f') ∨ ∃ op, a = .enter op ∧ f' = c.entry op := by
  have hnext : ∀ {f next : φ} {rest : List φ}, R f next → f' ∈ next :: rest →
      f' ∈ f :: rest ∨ ∃ g ∈ f :: rest, R g f' := by
    intro f next rest hled hmem
    rcases List.mem_cons.1 hmem with rfl | hrest
    · exact .inr ⟨f, List.mem_cons_self .., hled⟩
    · exact .inl (List.mem_cons_of_mem f hrest)
  cases h with
  | @lock held rest f m next hinstr _ | @unlock held rest f m next hinstr =>
    have hf := hR f
    rw [hinstr] at hf
    exact (hnext hf hf').imp_right .inl
  | @enter held rest f ok failed op hinstr =>
    rcases List.mem_cons.1 hf' with rfl | hold
    · exact .inr (.inr ⟨op, rfl, rfl⟩)
    · exact .inl hold
  | @returns held rest f ok failed b hinstr =>
    have hf := hR f
    rw [hinstr] at hf
    have hb : R f (if b then ok else failed) := by
      cases b with
      | true => exact hf.1
      | false => exact hf.2
    exact (hnext hb hf').imp_right .inl
  | @branch held rest f next o data f'' hinstr hchosen =>
    have hf := hR f
    rw [hinstr] at hf
    exact (hnext (hf _ _ _ _ hchosen) hf').imp_right .inl
  | @ret held rest f hinstr => exact .inl (List.mem_cons_of_mem f hf')

/-- The frame that a step calls, on a stack or on a new thread. -/
def called (c : Code σ μ φ χ ω ε) : Action ε (Move χ ω) → Option φ
  | .env e => some (c.root e)
  | .act _ (.enter op) => some (c.entry op)
  | .act _ _ => none

def Apart (clash : φ → φ → Prop) (u : Config (Locks σ μ) (CallStack μ φ)) : Prop :=
  ∀ t ∈ u.threads, ∀ f ∈ t.frames, ∀ t' ∈ u.threads, ∀ f' ∈ t'.frames, ¬ clash f f'

/-- What a step calls does not clash with the frames that are there. -/
def CallsApart (c : Code σ μ φ χ ω ε) (clash : φ → φ → Prop) (u : Config (Locks σ μ) (CallStack μ φ))
    (a : Action ε (Move χ ω)) : Prop :=
  ∀ f ∈ c.called a, ∀ t ∈ u.threads, ∀ g ∈ t.frames, ¬ clash f g

instance [DecidableRel clash] : DecidableRel (c.CallsApart clash) := by
  unfold CallsApart
  infer_instance

/-- A frame clashes with nothing that the one before did not clash with. -/
structure Inherits (c : Code σ μ φ χ ω ε) (clash : φ → φ → Prop) : Prop where
  symm : ∀ f g, clash f g → clash g f
  irrefl : ∀ f, ¬ clash f f
  leads : ∀ f, (c.instr f).Leads fun f' => ∀ g, clash f' g → clash f g

theorem Inherits.step (h : c.Inherits clash) (hu : Apart clash u) {a : Action ε (Move χ ω)}
    (ha : c.CallsApart clash u a) (hs : c.system.step u a = some v) : Apart clash v := by
  -- every frame is an old one, up to what it clashes with, or the one that has been called
  have horigin : ∀ t' ∈ v.threads, ∀ f' ∈ t'.frames,
      (∃ t ∈ u.threads, ∃ f ∈ t.frames, ∀ g, clash f' g → clash f g) ∨ c.called a = some f' := by
    rcases Machine.step_cases hs with ⟨e, r, rfl, hr, rfl⟩ | ⟨o, t, r, l, l', rfl, hts, hr, rfl⟩
    · cases hr
      refine List.forall_mem_append.2 ⟨fun t ht f hf => .inl ⟨t, ht, f, hf, fun g hg => hg⟩, ?_⟩
      exact List.forall_mem_singleton.2 (List.forall_mem_singleton.2 (.inr rfl))
    · obtain ⟨s', t'⟩ := r
      rw [hts]
      refine Machine.forall_threads_at.2 ⟨fun f' hf' => ?_, fun t₂ ht₂ f hf => ?_⟩
      · rcases (c.acts_of_act hr).mem_frames h.leads hf' with hf | ⟨f, hf, hled⟩ | ⟨op, rfl, rfl⟩
        · exact .inl ⟨t, by simp, f', hf, fun g hg => hg⟩
        · exact .inl ⟨t, by simp, f, hf, hled⟩
        · exact .inr rfl
      · have hold : t₂ ∈ l ++ t :: l' := (Machine.forall_threads_at.1 fun _ ht => ht).2 t₂ ht₂
        exact .inl ⟨t₂, hold, f, hf, fun g hg => hg⟩
  intro t ht f hf t' ht' f' hf' hclash
  rcases horigin t ht f hf with ⟨t₁, ht₁, f₁, hf₁, hinherits₁⟩ | hcalled
  · rcases horigin t' ht' f' hf' with ⟨t₂, ht₂, f₂, hf₂, hinherits₂⟩ | hcalled'
    · have hback := hinherits₂ _ (h.symm _ _ (hinherits₁ _ hclash))
      exact hu t₂ ht₂ f₂ hf₂ t₁ ht₁ f₁ hf₁ hback
    · exact ha f' hcalled' t₁ ht₁ f₁ hf₁ (h.symm _ _ (hinherits₁ _ hclash))
  · rcases horigin t' ht' f' hf' with ⟨t₂, ht₂, f₂, hf₂, hinherits₂⟩ | hcalled'
    · exact ha f hcalled t₂ ht₂ f₂ hf₂ (h.symm _ _ (hinherits₂ _ (h.symm _ _ hclash)))
    · obtain rfl : f = f' := Option.some.inj (hcalled.symm.trans hcalled')
      exact h.irrefl f hclash

theorem Inherits.run (h : c.Inherits clash) (hu : Apart clash u)
    {ok : Config (Locks σ μ) (CallStack μ φ) → Action ε (Move χ ω) → Prop}
    (hok : ∀ s a, ok s a → c.CallsApart clash s a) {as : List (Action ε (Move χ ω))}
    (hrun : Run c.system.step ok u as v) : Apart clash v :=
  hrun.invariant hu fun s a _ hs ha hstep => h.step hs (hok s a ha) hstep

end Code

/-! ## Things that are made once -/

/-- A thing that frames carry, the data keep and `made` says has been made. A frame may
    know that it is gone. -/
structure Token (σ φ : Type*) where
  carries : φ → Bool
  kept : σ → Bool
  made : σ → Bool
  gone : φ → Bool

namespace Token

variable {σ μ φ χ ω ε : Type*}

/-- A branch makes the thing, hands it on or drops it. -/
structure Changes (k : Token σ φ) (s : σ) (f : φ) (s' : σ) (f' : φ) : Prop where
  made : k.made s = true → k.made s' = true
  once : (k.carries f').toNat + (k.kept s').toNat + (k.made s).toNat ≤
    (k.carries f).toNat + (k.kept s).toNat + (k.made s').toNat
  gone : k.gone f' = true → k.gone f = true ∨
    (k.carries f').toNat + (k.kept s').toNat + 1 ≤ (k.carries f).toNat + (k.kept s).toNat

/-- The frame hands what it carries to the next one, and the next one knows no more. -/
def Passes (k : Token σ φ) (f next : φ) : Prop :=
  k.carries next = k.carries f ∧ (k.gone next = true → k.gone f = true)

theorem Changes.of_passes {k : Token σ φ} {s s' : σ} {f f' : φ}
    (hmade : k.made s = true → k.made s' = true) (hkept : k.kept s' = k.kept s) (h : k.Passes f f') :
    k.Changes s f s' f' := by
  have hle := Bool.toNat_le_toNat (Bool.le_iff_imp.2 hmade)
  refine ⟨hmade, ?_, fun hgone => .inl (h.2 hgone)⟩
  rw [hkept, h.1]
  omega

/-- The instruction of the frame `f` makes no second thing. -/
def Handles (k : Token σ φ) (f : φ) : Instr σ μ φ χ → Prop
  | .lock _ next => k.Passes f next
  | .unlock _ next => k.Passes f next
  | .callback ok failed => k.Passes f ok ∧ k.Passes f failed
  | .branch next => ∀ s o s' f', next s o = some (s', f') → k.Changes s f s' f'
  | .ret => k.carries f = false

structure Handled (k : Token σ φ) (c : Code σ μ φ χ ω ε) : Prop where
  instr : ∀ f, k.Handles f (c.instr f)
  entry : ∀ op, k.carries (c.entry op) = false ∧ k.gone (c.entry op) = false
  root : ∀ e, k.carries (c.root e) = false ∧ k.gone (c.root e) = false

/-- How many frames of the thread carry the thing. -/
def carried (k : Token σ φ) (t : CallStack μ φ) : ℕ := t.frames.countP k.carries

theorem carried_cons (k : Token σ φ) (held : List μ) (f : φ) (rest : List φ) :
    k.carried ⟨held, f :: rest⟩ = k.carried (⟨held, rest⟩ : CallStack μ φ) + (k.carries f).toNat := by
  simp only [carried, List.countP_cons]
  cases k.carries f <;> rfl

/-- There is at most one thing, and none if it has not been made or a frame knows that it
    is gone. -/
structure Unique (k : Token σ φ) (u : Config (Locks σ μ) (CallStack μ φ)) : Prop where
  once : Machine.total k.carried u.threads + (k.kept u.shared.data).toNat ≤
    (k.made u.shared.data).toNat
  gone : ∀ t ∈ u.threads, ∀ f ∈ t.frames, k.gone f = true → k.made u.shared.data = true ∧
    Machine.total k.carried u.threads = 0 ∧ k.kept u.shared.data = false

section

variable {k : Token σ φ} {s s' : Locks σ μ} {t t' : CallStack μ φ} {l l' : List (CallStack μ φ)}

/-- One thread changes itself and the data. -/
theorem Unique.act (h : k.Unique ⟨s, l ++ t :: l'⟩) (hmade : k.made s.data = true → k.made s'.data = true)
    (honce : k.carried t' + (k.kept s'.data).toNat + (k.made s.data).toNat ≤
      k.carried t + (k.kept s.data).toNat + (k.made s'.data).toNat)
    (hgone : ∀ f ∈ t'.frames, k.gone f = true → (∃ g ∈ t.frames, k.gone g = true) ∨
      k.carried t' + (k.kept s'.data).toNat + 1 ≤ k.carried t + (k.kept s.data).toNat) :
    k.Unique ⟨s', l ++ t' :: l'⟩ := by
  have htotal := h.once
  simp only [Machine.total_append, Machine.total_cons] at htotal
  have hbool := Bool.toNat_le (k.made s'.data)
  -- a frame that knew before that the thing is gone is still right
  have hknown : (∃ t'' ∈ l ++ t :: l', ∃ g ∈ t''.frames, k.gone g = true) →
      k.made s'.data = true ∧ Machine.total k.carried (l ++ t' :: l') = 0 ∧ k.kept s'.data = false := by
    rintro ⟨t'', ht'', g, hg, hgoneg⟩
    obtain ⟨hwas, hnone, hnot⟩ := h.gone t'' ht'' g hg hgoneg
    change k.made s.data = true at hwas
    change k.kept s.data = false at hnot
    change Machine.total k.carried (l ++ t :: l') = 0 at hnone
    have hnow := hmade hwas
    simp only [Machine.total_append, Machine.total_cons] at hnone ⊢
    rw [hwas, hnow, hnot, Bool.toNat_true, Bool.toNat_false] at honce
    exact ⟨hnow, by omega, Bool.toNat_eq_zero.1 (by omega)⟩
  refine ⟨?_, fun t'' ht'' f hf hgonef => ?_⟩
  · simp only [Machine.total_append, Machine.total_cons]
    omega
  · have hsome : ∃ t'' ∈ l ++ t' :: l', ∃ f ∈ t''.frames, k.gone f = true := ⟨t'', ht'', f, hf, hgonef⟩
    rcases Machine.exists_threads_at.1 hsome with ⟨g, hg, hgoneg⟩ | hrest
    · rcases hgone g hg hgoneg with hbefore | hspent
      · exact hknown (Machine.exists_threads_at.2 (.inl hbefore))
      · have hwas : k.made s.data = true := by
          refine eq_true_of_ne_false fun hnot => ?_
          rw [hnot, Bool.toNat_false] at htotal
          omega
        have hnow := hmade hwas
        rw [hwas, Bool.toNat_true] at htotal
        simp only [Machine.total_append, Machine.total_cons]
        exact ⟨hnow, by omega, Bool.toNat_eq_zero.1 (by omega)⟩
    · exact hknown (Machine.exists_threads_at.2 (.inr hrest))

/-- The innermost frame makes way for the next one. -/
theorem Unique.passes {held held' : List μ} {f next : φ} {rest : List φ} {locked : μ → Bool}
    (h : k.Unique ⟨s, l ++ ⟨held, f :: rest⟩ :: l'⟩) (hpasses : k.Passes f next) :
    k.Unique ⟨⟨s.data, locked⟩, l ++ ⟨held', next :: rest⟩ :: l'⟩ := by
  refine h.act id ?_ fun g hg hgoneg => .inl ?_
  · simp [carried, List.countP_cons, hpasses.1]
  · rcases List.mem_cons.1 hg with rfl | hrest
    · exact ⟨f, List.mem_cons_self .., hpasses.2 hgoneg⟩
    · exact ⟨g, List.mem_cons_of_mem _ hrest, hgoneg⟩

variable [DecidableEq μ] {c : Code σ μ φ χ ω ε} {data : σ} {as : List (Action ε (Move χ ω))}
  {ok : Config (Locks σ μ) (CallStack μ φ) → Action ε (Move χ ω) → Prop}
  {u : Config (Locks σ μ) (CallStack μ φ)} {a : Move χ ω}

theorem Handled.act (hk : k.Handled c) (h : k.Unique ⟨s, l ++ t :: l'⟩) (hacts : c.Acts s t a s' t') :
    k.Unique ⟨s', l ++ t' :: l'⟩ := by
  cases hacts with
  | @lock held rest f m next hinstr _ =>
    have hf := hk.instr f
    rw [hinstr] at hf
    exact h.passes hf
  | @unlock held rest f m next hinstr =>
    have hf := hk.instr f
    rw [hinstr] at hf
    exact h.passes hf
  | @enter held rest f ok failed op hinstr =>
    refine h.act id ?_ fun g hg hgoneg => .inl ?_
    · simp [carried, (hk.entry op).1]
    · rcases List.mem_cons.1 hg with rfl | hrest
      · rw [(hk.entry op).2] at hgoneg
        cases hgoneg
      · exact ⟨g, hrest, hgoneg⟩
  | @returns held rest f ok failed b hinstr =>
    have hf := hk.instr f
    rw [hinstr] at hf
    cases b with
    | true => exact h.passes hf.1
    | false => exact h.passes hf.2
  | @branch held rest f next o data f' hinstr hnext =>
    have hf := hk.instr f
    rw [hinstr] at hf
    obtain ⟨hmade, honce, hgone⟩ := hf s.data o data f' hnext
    refine h.act hmade ?_ fun g hg hgoneg => ?_
    · simp only [carried_cons]
      omega
    · rcases List.mem_cons.1 hg with rfl | hrest
      · rcases hgone hgoneg with hbefore | hspent
        · exact .inl ⟨f, List.mem_cons_self .., hbefore⟩
        · refine .inr ?_
          simp only [carried_cons]
          omega
      · exact .inl ⟨g, List.mem_cons_of_mem _ hrest, hgoneg⟩
  | @ret held rest f hinstr =>
    have hf : k.carries f = false := by
      have hf := hk.instr f
      rwa [hinstr] at hf
    refine h.act id ?_ fun g hg hgoneg => .inl ⟨g, List.mem_cons_of_mem _ hg, hgoneg⟩
    simp [carried, hf]

theorem Handled.unique_of_run (hk : k.Handled c)
    (hdata : (k.kept data).toNat ≤ (k.made data).toNat)
    (hrun : Run c.system.step ok (Code.initial μ φ data) as u) : k.Unique u := by
  refine c.invariant_of_run (I := k.Unique) (J := fun _ => True) hrun (fun _ _ _ => trivial) ?_ ?_ ?_
  · exact ⟨by simpa [Code.initial] using hdata, nofun⟩
  · intro s ts e hI
    have hnew : k.carried (⟨[], [c.root e]⟩ : CallStack μ φ) = 0 := by
      simp [carried, (hk.root e).1]
    refine ⟨?_, fun t ht f hf hgonef => ?_⟩
    · have honce := hI.once
      simp only [Machine.total_append, Machine.total_cons, Machine.total_nil, hnew]
      exact honce
    · simp only [Machine.total_append, Machine.total_cons, Machine.total_nil, hnew]
      rcases List.mem_append.1 ht with hold | hnew'
      · exact hI.gone t hold f hf hgonef
      · obtain rfl := List.mem_singleton.1 hnew'
        obtain rfl := List.mem_singleton.1 hf
        rw [(hk.root e).2] at hgonef
        cases hgonef
  · intro s l l' t a s' t' _ hI hacts
    exact hk.act hI hacts

end

end Token

end Interleaving
