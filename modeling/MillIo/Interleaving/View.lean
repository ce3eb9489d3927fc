-- SUMMARY: What a run puts out, and views of a system: a view that commutes with the steps carries runs over and back, so two runs that look alike put out the same; a view that only follows the steps is a refinement.
import MillIo.Interleaving.Machine
import Mathlib.Data.List.Induction

/-!
# Views of runs

A view forgets part of the states and of the actions of a system. If the steps can be
taken on the views alone, then whatever can be told from the views along a run does not
depend on what the view forgets: any run with the same view puts out the same.
-/

namespace Interleaving

variable {σ σ' α α' β : Type*}

/-- What the actions put out one after the other, each in the state before it. -/
def outputs (step : σ → α → Option σ) (out : σ → α → Option β) (s : σ) : List α → List β
  | [] => []
  | a :: as => (out s a).toList ++ (step s a).elim [] fun t => outputs step out t as

/-- The steps on the views are the views of the steps. -/
def Views (step : σ → α → Option σ) (step' : σ' → α' → Option σ') (view : σ → σ')
    (label : α → α') : Prop :=
  ∀ s a, step' (view s) (label a) = (step s a).map view

section Outputs

variable {step : σ → α → Option σ} {ok : σ → α → Prop} {out : σ → α → Option β} {s t : σ}
  {as : List α}

theorem Run.outputs_append (h : Run step ok s as t) (bs : List α) :
    outputs step out s (as ++ bs) = outputs step out s as ++ outputs step out t bs := by
  induction h generalizing bs with
  | refl => rfl
  | @snoc as t u a _ _ hs ih =>
    have hlast : outputs step out t [a] = (out t a).toList := by
      simp only [outputs, hs, Option.elim_some, List.append_nil]
    have hrest : outputs step out t (a :: bs) = (out t a).toList ++ outputs step out u bs := by
      simp only [outputs, hs, Option.elim_some]
    rw [List.append_assoc, List.singleton_append, ih (a :: bs), ih [a], hlast, hrest,
      List.append_assoc]

theorem Run.outputs_snoc {u : σ} {a : α} (h : Run step ok s as t) (hs : step t a = some u) :
    outputs step out s (as ++ [a]) = outputs step out s as ++ (out t a).toList := by
  rw [h.outputs_append]
  simp only [outputs, hs, Option.elim_some, List.append_nil]

end Outputs

namespace Views

variable {step : σ → α → Option σ} {step' : σ' → α' → Option σ'} {view : σ → σ'}
  {label : α → α'} {out : σ → α → Option β} {out' : σ' → α' → Option β} {s s' t : σ} {t' : σ'}
  {as as' : List α}

/-- The view of a run is a run of the views. -/
theorem run (h : Views step step' view label) (hr : Run step Unrestricted s as t) :
    Run step' Unrestricted (view s) (as.map label) (view t) := by
  induction hr with
  | refl => exact .refl
  | @snoc as t u a _ _ hs ih =>
    rw [List.map_append]
    refine ih.snoc trivial ?_
    rw [h, hs]
    rfl

/-- A run of the views is the view of a run. -/
theorem lift (h : Views step step' view label)
    (hr : Run step' Unrestricted (view s) (as.map label) t') :
    ∃ t, Run step Unrestricted s as t ∧ view t = t' := by
  induction as using List.reverseRecOn generalizing t' with
  | nil => exact ⟨s, .refl, hr.nil_inv.symm⟩
  | append_singleton as a ih =>
    rw [List.map_append] at hr
    obtain ⟨u', hu', -, hs'⟩ := hr.snoc_inv
    obtain ⟨u, hu, rfl⟩ := ih hu'
    rw [h] at hs'
    obtain ⟨t, hs, rfl⟩ := Option.map_eq_some_iff.1 hs'
    exact ⟨t, hu.snoc trivial hs, rfl⟩

/-- Actions that look like those of a run can be taken as well. -/
theorem alike (h : Views step step' view label) (hr : Run step Unrestricted s as t)
    (hs : view s' = view s) (has : as'.map label = as.map label) :
    ∃ t', Run step Unrestricted s' as' t' ∧ view t' = view t := by
  refine h.lift ?_
  rw [hs, has]
  exact h.run hr

/-- What is put out by the view of each step is put out by the view of the run. -/
theorem outputs_map (h : Views step step' view label)
    (hout : ∀ s a, out s a = out' (view s) (label a)) :
    outputs step out s as = outputs step' out' (view s) (as.map label) := by
  induction as generalizing s with
  | nil => rfl
  | cons a as ih =>
    simp only [outputs, List.map_cons, hout, h s a]
    cases step s a with
    | none => rfl
    | some t => exact congrArg _ ih

theorem outputs_eq (h : Views step step' view label)
    (hout : ∀ s a, out s a = out' (view s) (label a)) (hs : view s' = view s)
    (has : as'.map label = as.map label) : outputs step out s' as' = outputs step out s as := by
  rw [h.outputs_map hout, h.outputs_map hout, hs, has]

end Views

/-! ## Views of machines -/

variable {τ τ' ε ε' χ χ' : Type*}

def Config.map (f : σ → σ') (g : τ → τ') (s : Config σ τ) : Config σ' τ' :=
  ⟨f s.shared, s.threads.map g⟩

def Action.map (f : ε → ε') (g : χ → χ') : Action ε χ → Action ε' χ'
  | .env e => .env (f e)
  | .act i c => .act i (g c)

/-- A view of the shared state and of each thread is a view of the machine. -/
theorem Machine.views {m : Machine σ τ ε χ} {m' : Machine σ' τ' ε' χ'} {f : σ → σ'} {g : τ → τ'}
    {k : ε → ε'} {l : χ → χ'}
    (henv : ∀ x e, m'.env (f x) (k e) = (m.env x e).map fun r => (f r.1, r.2.map g))
    (hact : ∀ x t c, m'.act (f x) (g t) (l c) = (m.act x t c).map (Prod.map f g)) :
    Views m.step m'.step (Config.map f g) (Action.map k l) := by
  intro s a
  cases a with
  | env e =>
    simp only [Machine.step, Action.map, Config.map, henv, Option.map_map]
    congr 1
    funext r
    simp [Config.map]
  | act i c =>
    simp only [Machine.step, Action.map, Config.map, List.getElem?_map]
    cases s.threads[i]? with
    | none => rfl
    | some t =>
      simp only [Option.map_some, Option.bind_some, hact, Option.map_map]
      congr 1
      funext r
      simp [Config.map, List.map_set]

/-! ## Refinement -/

section Refinement

variable {γ : Type*} {step : σ → α → Option σ} {step' : σ' → α' → Option σ'} {view : σ → σ'}
  {ok : σ → α → Prop} {ok' : σ' → α' → Prop} {J : σ → Prop} {s t : σ} {as : List α}

/-- If every step of a run leaves the view as it is or is a step of another system between the
    views, then the run is a run of that system, and what is observed of the steps is the same. -/
theorem Run.refines_upto {obs : α → Option γ} {obs' : α' → Option γ} (h : Run step ok s as t)
    (hJ : ∀ as t, Run step ok s as t → J t)
    (hstep : ∀ t a u, J t → ok t a → step t a = some u →
      (view u = view t ∧ obs a = none) ∨
      ∃ a', obs' a' = obs a ∧ ok' (view t) a' ∧ step' (view t) a' = some (view u)) :
    ∃ bs, bs.filterMap obs' = as.filterMap obs ∧ Run step' ok' (view s) bs (view t) := by
  induction h with
  | refl => exact ⟨[], rfl, .refl⟩
  | snoc hr ha hs ih =>
    obtain ⟨bs, hobs, hbs⟩ := ih
    rcases hstep _ _ _ (hJ _ _ hr) ha hs with ⟨hview, hnone⟩ | ⟨a', hsome, hok, hs'⟩
    · refine ⟨bs, ?_, hview ▸ hbs⟩
      rw [List.filterMap_append, hobs, List.filterMap_cons_none hnone, List.filterMap_nil,
        List.append_nil]
    · refine ⟨bs ++ [a'], ?_, hbs.snoc hok hs'⟩
      simp only [List.filterMap_append, List.filterMap_cons, List.filterMap_nil, hobs, hsome]

/-- As above, where nothing is observed. -/
theorem Run.refines_stuttering (h : Run step ok s as t) (hJ : ∀ as t, Run step ok s as t → J t)
    (hstep : ∀ t a u, J t → ok t a → step t a = some u →
      view u = view t ∨ ∃ a', step' (view t) a' = some (view u)) :
    ∃ bs, Run step' Unrestricted (view s) bs (view t) := by
  have hnothing : ∀ t a u, J t → ok t a → step t a = some u →
      (view u = view t ∧ (none : Option Unit) = none) ∨
      ∃ a', (none : Option Unit) = none ∧ Unrestricted (view t) a' ∧
        step' (view t) a' = some (view u) :=
    fun t a u ht ha hs => (hstep t a u ht ha hs).imp (fun hsame => ⟨hsame, rfl⟩)
      fun ⟨a', hs'⟩ => ⟨a', rfl, trivial, hs'⟩
  obtain ⟨bs, -, hbs⟩ := h.refines_upto hJ hnothing
  exact ⟨bs, hbs⟩

/-- If every step of a run is a step of a more abstract system between the views, which may
    have more choices to make, then the run is a run of that system. -/
theorem Run.refines {label : α' → α} (h : Run step ok s as t)
    (hJ : ∀ as t, Run step ok s as t → J t)
    (hstep : ∀ t a u, J t → ok t a → step t a = some u →
      ∃ a', label a' = a ∧ step' (view t) a' = some (view u)) :
    ∃ bs, bs.map label = as ∧ Run step' Unrestricted (view s) bs (view t) := by
  have hrun : ∃ bs, bs.filterMap (fun a => some (label a)) = as.filterMap some ∧
      Run step' Unrestricted (view s) bs (view t) := by
    refine h.refines_upto hJ fun t a u ht ha hs => ?_
    obtain ⟨a', rfl, hs'⟩ := hstep t a u ht ha hs
    exact .inr ⟨a', rfl, trivial, hs'⟩
  obtain ⟨bs, hobs, hbs⟩ := hrun
  exact ⟨bs, by simpa using hobs, hbs⟩

end Refinement

/-- A machine refines another when what the environment and each thread do in it is what they
    do in the other. -/
theorem Machine.refines {m : Machine σ τ ε χ} {m' : Machine σ' τ' ε' χ'} {f : σ → σ'} {g : τ → τ'}
    {k : ε' → ε} {l : χ' → χ} {ok : Config σ τ → Action ε χ → Prop} {J : Config σ τ → Prop}
    {s u : Config σ τ} {as : List (Action ε χ)}
    (h : Run m.step ok s as u) (hJ : ∀ as t, Run m.step ok s as t → J t)
    (henv : ∀ x ts e y ts', J ⟨x, ts⟩ → ok ⟨x, ts⟩ (.env e) → m.env x e = some (y, ts') →
      ∃ e', k e' = e ∧ m'.env (f x) e' = some (f y, ts'.map g))
    (hact : ∀ x r r' t c y t', J ⟨x, r ++ t :: r'⟩ → ok ⟨x, r ++ t :: r'⟩ (.act r.length c) →
      m.act x t c = some (y, t') → ∃ c', l c' = c ∧ m'.act (f x) (g t) c' = some (f y, g t')) :
    ∃ bs, bs.map (Action.map k l) = as ∧
      Run m'.step Unrestricted (s.map f g) bs (u.map f g) := by
  refine h.refines hJ fun s a u hs hok hstep => ?_
  obtain ⟨x, ts⟩ := s
  rcases step_cases hstep with ⟨e, ⟨y, ts'⟩, rfl, hr, rfl⟩ | ⟨c, t, ⟨y, t'⟩, r, r', rfl, hts, hr, rfl⟩
  · obtain ⟨e', rfl, he'⟩ := henv x ts e y ts' hs hok hr
    refine ⟨.env e', rfl, step_env_iff.2 ⟨_, he', ?_⟩⟩
    simp [Config.map]
  · obtain rfl : ts = r ++ t :: r' := hts
    obtain ⟨c', rfl, hc'⟩ := hact x r r' t c y t' hs hok hr
    refine ⟨.act r.length c', rfl, step_act_iff.2 ⟨g t, _, ?_, hc', ?_⟩⟩
    · simp [Config.map]
    · simp [Config.map]

end Interleaving
