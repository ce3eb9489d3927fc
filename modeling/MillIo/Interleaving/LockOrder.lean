-- SUMMARY: Mutexes that are locked in the order of their ranks: no thread waits for ever, and every call can still be run to its end.
import MillIo.Interleaving.CallStack
import Mathlib.Data.Set.Finite.Lemmas

/-!
# Lock orders

Every mutex has a rank. A frame locks mutexes above all that it holds itself, and an
operation that a callback calls locks mutexes above all that its thread holds. A thread
that waits then waits for a holder that waits, if at all, for a mutex of a higher rank,
so the waits lead to a thread that can go on.
-/

namespace Interleaving

/-! ## Code that keeps to an order -/

section

variable {σ μ φ χ α : Type*} [LT α]

/-- The instruction of the frame `f` locks what `f` may lock and what ranks above all that
    it holds, and the frames after it may lock no more. -/
def Instr.Ordered (holds : φ → List μ) (may : φ → Set μ) (rank : μ → α) (f : φ) :
    Instr σ μ φ χ → Prop
  | .lock m next => (m ∈ may f ∧ ∀ m' ∈ holds f, rank m' < rank m) ∧ may next ⊆ may f
  | .unlock _ next => may next ⊆ may f
  | .callback ok failed => may ok ⊆ may f ∧ may failed ⊆ may f
  | .branch next => ∀ s o s' f', next s o = some (s', f') → may f' ⊆ may f
  | .ret => True

/-- The frame `f` can go on to one that is nearer to its end. -/
def Instr.Ends (left : φ → ℕ) (f : φ) : Instr σ μ φ χ → Prop
  | .lock _ next => left next < left f
  | .unlock _ next => left next < left f
  | .callback ok _ => left ok < left f
  | .branch next => ∀ s, ∃ o s' f', next s o = some (s', f') ∧ left f' < left f
  | .ret => True

end

/-! ## Code that is part of other code -/

namespace Instr

variable {σ μ μ' φ φ' χ α : Type*} {holds : φ → List μ} {holds' : φ' → List μ'} {f : φ}
  {i : Instr σ μ φ χ} {g : μ → μ'} {k : φ → φ'}

/-- The instruction over other mutexes and frames. -/
def map (g : μ → μ') (k : φ → φ') : Instr σ μ φ χ → Instr σ μ' φ' χ
  | .lock m next => .lock (g m) (k next)
  | .unlock m next => .unlock (g m) (k next)
  | .callback ok failed => .callback (k ok) (k failed)
  | .branch next => .branch fun s o => (next s o).map fun r => (r.1, k r.2)
  | .ret => .ret

theorem Follows.map (h : i.Follows holds f) (hholds : ∀ f, holds' (k f) = (holds f).map g) :
    (i.map g k).Follows holds' (k f) := by
  cases i with
  | lock m next =>
    have hnext : holds next = m :: holds f := h
    simp only [Instr.map, Instr.Follows, hholds, hnext, List.map_cons]
  | unlock m next =>
    have hf : holds f = m :: holds next := h
    simp only [Instr.map, Instr.Follows, hholds, hf, List.map_cons]
  | callback ok failed =>
    obtain ⟨hok, hfailed⟩ := h
    simp only [Instr.map, Instr.Follows, hholds, hok, hfailed, and_self]
  | branch next =>
    intro s o s' f' hnext
    obtain ⟨⟨data, f''⟩, hbranch, heq⟩ := Option.map_eq_some_iff.1 hnext
    obtain ⟨rfl, rfl⟩ := Prod.mk.inj heq
    rw [hholds, hholds, h s o data f'' hbranch]
  | ret =>
    have hf : holds f = [] := h
    simp only [Instr.map, Instr.Follows, hholds, hf, List.map_nil]

theorem Ordered.map [LT α] {rank : μ → α} {rank' : μ' → α} {may : φ → Set μ} {may' : φ' → Set μ'}
    (h : i.Ordered holds may rank f) (hholds : ∀ f, holds' (k f) = (holds f).map g)
    (hrank : ∀ m, rank' (g m) = rank m) (hmem : ∀ m ∈ may f, g m ∈ may' (k f))
    (hmay : ∀ f', may f' ⊆ may f → may' (k f') ⊆ may' (k f)) :
    (i.map g k).Ordered holds' may' rank' (k f) := by
  cases i with
  | lock m next =>
    obtain ⟨⟨hin, habove⟩, hnext⟩ := h
    refine ⟨⟨hmem m hin, fun m' hm' => ?_⟩, hmay next hnext⟩
    rw [hholds] at hm'
    obtain ⟨m₀, hm₀, rfl⟩ := List.mem_map.1 hm'
    rw [hrank, hrank]
    exact habove m₀ hm₀
  | unlock m next => exact hmay next h
  | callback ok failed => exact ⟨hmay ok h.1, hmay failed h.2⟩
  | branch next =>
    intro s o s' f' hnext
    obtain ⟨⟨data, f''⟩, hbranch, heq⟩ := Option.map_eq_some_iff.1 hnext
    obtain ⟨rfl, rfl⟩ := Prod.mk.inj heq
    exact hmay f'' (h s o data f'' hbranch)
  | ret => trivial

end Instr

namespace Code

variable {σ μ φ χ ω ε α : Type*} [DecidableEq μ] [LinearOrder α] {c : Code σ μ φ χ ω ε}
  {holds : φ → List μ} {may : φ → Set μ} {rank : μ → α} {left : φ → ℕ}
  {s s' : Locks σ μ} {t t' : CallStack μ φ} {a : Move χ ω} {data : σ}
  {as : List (Action ε (Move χ ω))} {u : Config (Locks σ μ) (CallStack μ φ)}

/-- What an operation may lock ranks above all that the thread which calls it holds. -/
def Ascending (c : Code σ μ φ χ ω ε) (may : φ → Set μ) (rank : μ → α) :
    Config (Locks σ μ) (CallStack μ φ) → Action ε (Move χ ω) → Prop :=
  Machine.ThreadSteps fun _ t a =>
    ∀ op, a = .enter op → ∀ m ∈ t.held, ∀ m' ∈ may (c.entry op), rank m < rank m'

/-- No thread starts, and no callback calls an operation. -/
def Quiet : Config (Locks σ μ) (CallStack μ φ) → Action ε (Move χ ω) → Prop
  | _, .env _ => False
  | _, .act _ a => ∀ op, a ≠ .enter op

omit [DecidableEq μ] in
theorem Quiet.ascending {a : Action ε (Move χ ω)} (h : Quiet u a) : c.Ascending may rank u a := by
  cases a with
  | env e => cases h
  | act i a =>
    intro t _ op heq
    exact absurd heq (h op)

omit [DecidableEq μ] in
theorem Quiet.callsApart {clash : φ → φ → Prop} {a : Action ε (Move χ ω)} (h : Quiet u a) :
    c.CallsApart clash u a := by
  cases a with
  | env e => cases h
  | act i a =>
    cases a with
    | enter op => exact absurd rfl (h op)
    | go | returns _ | choose _ => exact fun f hf => nomatch hf

/-! ## Ranks along a stack -/

/-- Each frame may lock only what ranks above all that the frames under it hold. -/
def Climbs (holds : φ → List μ) (may : φ → Set μ) (rank : μ → α) (t : CallStack μ φ) : Prop :=
  t.frames.Pairwise fun f g => ∀ m ∈ holds g, ∀ m' ∈ may f, rank m < rank m'

omit [DecidableEq μ] in
theorem Climbs.next {held held' : List μ} {f next : φ} {rest : List φ}
    (h : Climbs holds may rank ⟨held, f :: rest⟩) (hmay : may next ⊆ may f) :
    Climbs holds may rank ⟨held', next :: rest⟩ := by
  obtain ⟨hf, hrest⟩ := List.pairwise_cons.1 h
  exact List.pairwise_cons.2 ⟨fun g hg m hm m' hm' => hf g hg m hm m' (hmay hm'), hrest⟩

theorem Climbs.act (hc : ∀ f, (c.instr f).Ordered holds may rank f) (h : Climbs holds may rank t)
    (haccounted : c.Accounted holds t)
    (henter : ∀ op, a = .enter op → ∀ m ∈ t.held, ∀ m' ∈ may (c.entry op), rank m < rank m')
    (hacts : c.Acts s t a s' t') : Climbs holds may rank t' := by
  cases hacts with
  | @lock held rest f m next hinstr _ =>
    have hf := hc f
    rw [hinstr] at hf
    exact h.next hf.2
  | @unlock held rest f m next hinstr =>
    have hf := hc f
    rw [hinstr] at hf
    exact h.next hf
  | @enter held rest f ok failed op hinstr =>
    refine List.pairwise_cons.2 ⟨fun g hg m hm => henter op rfl m ?_, h⟩
    rw [haccounted.held]
    exact List.mem_flatMap.2 ⟨g, hg, hm⟩
  | @returns held rest f ok failed b hinstr =>
    have hf := hc f
    rw [hinstr] at hf
    cases b with
    | true => exact h.next hf.1
    | false => exact h.next hf.2
  | @branch held rest f next o data f' hinstr hnext =>
    have hf := hc f
    rw [hinstr] at hf
    exact h.next (hf s.data o data f' hnext)
  | ret hinstr => exact (List.pairwise_cons.1 h).2

theorem climbs_of_run (hholds : c.Follows holds) (hc : ∀ f, (c.instr f).Ordered holds may rank f)
    (hrun : Run c.system.step (c.Ascending may rank) (initial μ φ data) as u) :
    ∀ t ∈ u.threads, Climbs holds may rank t := by
  refine Machine.invariant_of_run (I := fun u => ∀ t ∈ u.threads, Climbs holds may rank t) hrun
    (fun as u hr => hholds.accounted_of_run hr) ?_ ?_ ?_
  · intro t ht
    cases ht
  · intro s ts e s' ts' _ hI _ hr
    obtain ⟨rfl, rfl⟩ := Prod.mk.inj (Option.some.inj hr)
    exact List.forall_mem_append.2 ⟨hI, List.forall_mem_singleton.2 (List.pairwise_singleton ..)⟩
  · intro s l l' t a s' t' haccounted hI hok hr
    obtain ⟨ht, hrest⟩ := Machine.forall_threads_at.1 hI
    refine Machine.forall_threads_at.2 ⟨?_, hrest⟩
    exact ht.act hc (haccounted t (by simp)) (Machine.threadSteps_at.1 hok) (c.acts_of_act hr)

/-! ## Code that calls in the order -/

/-- The innermost frame of the thread calls what `calls` lets it call. -/
def Allows (calls : φ → ω → Bool) (t : CallStack μ φ) : Move χ ω → Prop
  | .enter op => ∀ f ∈ t.frames.head?, calls f op = true
  | _ => True

instance (calls : φ → ω → Bool) (t : CallStack μ φ) (a : Move χ ω) : Decidable (Allows calls t a) := by
  unfold Allows
  split <;> infer_instance

def Calling (calls : φ → ω → Bool) : Config (Locks σ μ) (CallStack μ φ) → Action ε (Move χ ω) → Prop :=
  Machine.ThreadSteps fun _ t a => Allows calls t a

instance (calls : φ → ω → Bool) : DecidableRel
    (Calling calls : Config (Locks σ μ) (CallStack μ φ) → Action ε (Move χ ω) → Prop) := by
  unfold Calling
  infer_instance

/-- A frame may lock what its calls may lock, and they lock above all that it holds. -/
def Calls (c : Code σ μ φ χ ω ε) (holds : φ → List μ) (may : φ → Set μ) (rank : μ → α)
    (calls : φ → ω → Bool) : Prop :=
  ∀ f op, calls f op = true → may (c.entry op) ⊆ may f ∧
    ∀ m ∈ holds f, ∀ m' ∈ may (c.entry op), rank m < rank m'

theorem ascending_of_calling {calls : φ → ω → Bool} (hholds : c.Follows holds)
    (hc : ∀ f, (c.instr f).Ordered holds may rank f) (hcalls : c.Calls holds may rank calls)
    (hrun : Run c.system.step (Calling calls) (initial μ φ data) as u) :
    Run c.system.step (c.Ascending may rank) (initial μ φ data) as u := by
  induction hrun with
  | refl => exact .refl
  | @snoc as t v a hr ha hs ih =>
    refine ih.snoc ?_ hs
    cases a with
    | env e => trivial
    | act i a =>
      rintro t' ht' op rfl m hm m' hm'
      have hmem := List.mem_of_getElem? (Option.mem_def.1 ht')
      have haccounted := hholds.accounted_of_run hr t' hmem
      have hclimbs := climbs_of_run hholds hc ih t' hmem
      obtain ⟨held, frames⟩ := t'
      cases frames with
      | nil =>
        rw [haccounted.held] at hm
        cases hm
      | cons f rest =>
        obtain ⟨hsub, hown⟩ := hcalls f op (ha _ ht' f rfl)
        rw [haccounted.held, List.flatMap_cons, List.mem_append, List.mem_flatMap] at hm
        rcases hm with hf | ⟨g, hg, hunder⟩
        · exact hown m hf m' hm'
        · exact (List.pairwise_cons.1 hclimbs).1 g hg m hunder m' (hsub hm')

/-! ## Waiting -/

/-- The mutex that the innermost frame of the thread is about to lock. -/
def awaits (c : Code σ μ φ χ ω ε) (t : CallStack μ φ) : Option μ := t.frames.head?.bind c.wants

omit [DecidableEq μ] in
/-- What a thread is about to lock ranks above all that it holds. -/
theorem Climbs.lt (hc : ∀ f, (c.instr f).Ordered holds may rank f) (h : Climbs holds may rank t)
    (haccounted : c.Accounted holds t) {m m' : μ} (hm : c.awaits t = some m) (hm' : m' ∈ t.held) :
    rank m' < rank m := by
  obtain ⟨held, frames⟩ := t
  obtain ⟨f, hf, hwants⟩ := Option.bind_eq_some_iff.1 hm
  obtain ⟨rest, rfl⟩ := List.head?_eq_some_iff.1 hf
  obtain ⟨next, hinstr⟩ := c.wants_eq_some_iff.1 hwants
  have hlock := hc f
  rw [hinstr] at hlock
  rw [haccounted.held, List.flatMap_cons, List.mem_append, List.mem_flatMap] at hm'
  rcases hm' with hown | ⟨g, hg, hunder⟩
  · exact hlock.1.2 m' hown
  · exact (List.pairwise_cons.1 h).1 g hg m' hunder m hlock.1.1

/-- A mutex that is taken is held by a thread. -/
theorem Follows.holder (h : c.Follows holds) {ok : Config (Locks σ μ) (CallStack μ φ) → Action ε (Move χ ω) → Prop}
    (hrun : Run c.system.step ok (initial μ φ data) as u) {m : μ} (hm : u.shared.locked m = true) :
    ∃ t ∈ u.threads, m ∈ t.held := by
  by_contra hnone
  have hzero : Machine.total (fun t : CallStack μ φ => t.held.count m) u.threads = 0 :=
    Machine.total_eq_zero fun t ht => List.count_eq_zero.2 fun hmem => hnone ⟨t, ht, hmem⟩
  have hone : Machine.total (fun t : CallStack μ φ => t.held.count m) u.threads =
      (u.shared.locked m).toNat := h.guarded hrun m
  rw [hzero, hm] at hone
  cases hone

/-- The thread `t` is about to lock a mutex that the thread `t'` holds. -/
def WaitsFor (c : Code σ μ φ χ ω ε) (u : Config (Locks σ μ) (CallStack μ φ)) (t t' : CallStack μ φ) :
    Prop :=
  t' ∈ u.threads ∧ ∃ m, c.awaits t = some m ∧ m ∈ t'.held

/-- From every thread the waits lead to one that does not wait. -/
theorem waits_lead_out (hholds : c.Follows holds)
    (hc : ∀ f, (c.instr f).Ordered holds may rank f)
    (hrun : Run c.system.step (c.Ascending may rank) (initial μ φ data) as u)
    (ht : t ∈ u.threads) (hframes : t.frames ≠ []) :
    ∃ t', Relation.ReflTransGen (c.WaitsFor u) t t' ∧ t' ∈ u.threads ∧ t'.frames ≠ [] ∧
      ∀ m ∈ c.awaits t', u.shared.locked m = false := by
  by_contra hnone
  have hwaits : ∀ t', Relation.ReflTransGen (c.WaitsFor u) t t' → t' ∈ u.threads → t'.frames ≠ [] →
      ∃ m, c.awaits t' = some m ∧ u.shared.locked m = true := by
    intro t' hpath ht' hframes'
    by_contra hfree
    refine hnone ⟨t', hpath, ht', hframes', fun m hm => eq_false_of_ne_true fun htaken => ?_⟩
    exact hfree ⟨m, hm, htaken⟩
  -- of all mutexes that the waits lead to, one of the highest rank
  let awaited : Set μ := {m | ∃ t' ∈ u.threads, Relation.ReflTransGen (c.WaitsFor u) t t' ∧
    c.awaits t' = some m ∧ u.shared.locked m = true}
  have hfinite : awaited.Finite := by
    refine (u.threads.filterMap c.awaits).finite_toSet.subset ?_
    rintro m ⟨t', ht', -, hm, -⟩
    exact List.mem_filterMap.2 ⟨t', ht', hm⟩
  obtain ⟨m₀, hm₀, htaken₀⟩ := hwaits t .refl ht hframes
  obtain ⟨m, ⟨t₁, ht₁, hpath, hm, htaken⟩, hmax⟩ :=
    Set.exists_max_image awaited rank hfinite ⟨m₀, t, ht, .refl, hm₀, htaken₀⟩
  obtain ⟨t', ht', hheld⟩ := hholds.holder hrun htaken
  have haccounted := hholds.accounted_of_run hrun t' ht'
  have hframes' : t'.frames ≠ [] := by
    intro hnil
    rw [haccounted.held, hnil] at hheld
    cases hheld
  -- its holder waits for a mutex above it
  have hpath' : Relation.ReflTransGen (c.WaitsFor u) t t' := hpath.tail ⟨ht', m, hm, hheld⟩
  obtain ⟨m', hm', htaken'⟩ := hwaits t' hpath' ht' hframes'
  have hlt : rank m < rank m' := (climbs_of_run hholds hc hrun t' ht').lt hc haccounted hm' hheld
  exact absurd hlt (not_lt_of_ge (hmax m' ⟨t', ht', hpath', hm', htaken'⟩))

/-! ## Coming to an end -/

/-- How far the thread is from having returned. -/
def remaining (left : φ → ℕ) (t : CallStack μ φ) : ℕ := (t.frames.map fun f => left f + 1).sum

omit [DecidableEq μ] in
@[simp] theorem remaining_cons (left : φ → ℕ) (held : List μ) (f : φ) (rest : List φ) :
    remaining left ⟨held, f :: rest⟩ = left f + 1 + (rest.map fun f => left f + 1).sum := rfl

/-- A thread that does not wait can come nearer to its end, and makes no call for it. -/
theorem exists_act (hends : ∀ f, (c.instr f).Ends left f) (hframes : t.frames ≠ [])
    (hfree : ∀ m ∈ c.awaits t, s.locked m = false) :
    ∃ a r, (∀ op, a ≠ .enter op) ∧ c.act s t a = some r ∧ remaining left r.2 < remaining left t := by
  obtain ⟨held, frames⟩ := t
  cases frames with
  | nil => exact absurd rfl hframes
  | cons f rest =>
    have hless : ∀ (held' : List μ) (next : φ), left next < left f →
        remaining left ⟨held', next :: rest⟩ < remaining left ⟨held, f :: rest⟩ := by
      intro held' next hlt
      simp only [remaining_cons]
      omega
    have hf := hends f
    cases hinstr : c.instr f with
    | lock m next =>
      rw [hinstr] at hf
      have hm : s.locked m = false := hfree m (by simp [awaits, wants, hinstr])
      refine ⟨.go, (⟨s.data, Function.update s.locked m true⟩, ⟨m :: held, next :: rest⟩),
        fun op => by simp, ?_, hless _ next hf⟩
      simp only [act, hinstr, proceed, hm, Bool.false_eq_true, if_false]
    | unlock m next =>
      rw [hinstr] at hf
      refine ⟨.go, (⟨s.data, Function.update s.locked m false⟩, ⟨held.erase m, next :: rest⟩),
        fun op => by simp, ?_, hless _ next hf⟩
      simp only [act, hinstr, proceed]
    | callback ok failed =>
      rw [hinstr] at hf
      refine ⟨.returns true, (s, ⟨held, ok :: rest⟩), fun op => by simp, ?_, hless _ ok hf⟩
      simp only [act, hinstr, proceed, if_true]
    | branch next =>
      rw [hinstr] at hf
      obtain ⟨o, data, f', hnext, hlt⟩ := hf s.data
      refine ⟨.choose o, (⟨data, s.locked⟩, ⟨held, f' :: rest⟩), fun op => by simp, ?_,
        hless _ f' hlt⟩
      simp only [act, hinstr, proceed, hnext, Option.map_some]
    | ret =>
      refine ⟨.go, (s, ⟨held, rest⟩), fun op => by simp, ?_, ?_⟩
      · simp only [act, hinstr, proceed]
      · change (rest.map fun f => left f + 1).sum < _
        simp only [remaining_cons]
        omega

/-- From wherever a run may come, all threads can return, with no further call made. -/
theorem can_finish (hholds : c.Follows holds) (hc : ∀ f, (c.instr f).Ordered holds may rank f)
    (hends : ∀ f, (c.instr f).Ends left f)
    (hrun : Run c.system.step (c.Ascending may rank) (initial μ φ data) as u) :
    ∃ bs v, Run c.system.step Quiet u bs v ∧ v.threads.length = u.threads.length ∧
      ∀ t ∈ v.threads, t.frames = [] := by
  induction hn : Machine.total (remaining left) u.threads using Nat.strong_induction_on
    generalizing as u with
  | h n ih =>
    subst hn
    by_cases hdone : ∀ t ∈ u.threads, t.frames = []
    · exact ⟨[], u, .refl, rfl, hdone⟩
    · simp only [not_forall] at hdone
      obtain ⟨t₀, ht₀, hframes₀⟩ := hdone
      obtain ⟨t, -, ht, hframes, hfree⟩ := waits_lead_out hholds hc hrun ht₀ hframes₀
      obtain ⟨a, r, hquiet, hact, hless⟩ := exists_act hends hframes hfree
      obtain ⟨l, l', hts⟩ := List.append_of_mem ht
      have hstep := c.system.step_act_at (ε := ε) hts hact
      have hq : Quiet u (.act l.length a : Action ε (Move χ ω)) := hquiet
      obtain ⟨bs, v, hv, hlength, hend⟩ := ih _ (by
        simp only [hts, Machine.total_append, Machine.total_cons]
        omega) (hrun.snoc hq.ascending hstep) rfl
      refine ⟨_, v, .cons hq hstep hv, ?_, hend⟩
      simp [hlength, hts]

end Code

end Interleaving
