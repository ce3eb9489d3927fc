-- SUMMARY: When no handler is called after the deregistration of its source has returned, nor with an event of another source.
import MillIo.EventLoop.Dispatch

/-!
# Events after a deregistration

`deregister` waits for nobody: a dispatch that has found the handler calls it, whether
the source is still registered or not. A queued event knows only its token, so it
reaches whatever handler is registered under the token when the event is looked up.
-/
namespace Dispatch

open Interleaving EventLoop

/-- The handler has not been deregistered, and the event is of its own source. -/
def Proper (pre : List Record) : Record → Prop
  | .called r handler => .deregistered handler ∉ pre ∧ handler = r.reg.id
  | _ => True

def Thread.hasFound (id : ℕ) : Thread → Bool
  | .dispatch _ (.found _ handler) => handler == id
  | _ => false

/-- If the thread is about to look an event up, the registry has no other source's handler
    for it. If it is in a call of `deregister`, the token is the one the source was
    registered with, and no dispatch has found the handler when the call returns. -/
def Thread.cleared (s : State) : Thread → Bool
  | .dispatch _ (.looking r) => (s.shared.lookup r.event).all (· == r.reg.id)
  | .deregister (.removing _ token reg) => token == reg.token
  | .deregister (.returning _ reg) => s.threads.all fun t => !t.hasFound reg.id
  | _ => true

/-- No event is looked up when another handler is registered under its token, and each
    call of `deregister` is given the token of the source and returns while no dispatch
    is between its look-up of the handler and the call. -/
def Cleared : State → Step → Prop := Machine.ThreadSteps fun s t _ => t.cleared s = true

instance : DecidableRel Cleared := by unfold Cleared; infer_instance

/-! ## The registrations -/

def Register.source : Register → Option ℕ
  | .entering src _ _ => some src
  | .inserting src _ => some src
  | .returned _ => none

def Deregister.source : Deregister → Option ℕ
  | .entering src _ => some src
  | .removing src _ _ => some src
  | .returning src _ => some src
  | .returned _ => none

/-- The source that the thread borrows. -/
def Thread.source : Thread → Option ℕ
  | .register t => t.source
  | .deregister t => t.source
  | _ => none

def Thread.borrows (src : ℕ) (t : Thread) : ℕ := if t.source = some src then 1 else 0

/-- What the state of a thread says about the registrations. -/
def Thread.Fits (s : Shared) : Thread → Prop
  | .register (.inserting src reg) =>
    s.registrations[reg.id]? = some (src, reg.token) ∧ .deregistered reg.id ∉ s.history
  | .deregister (.removing src _ reg) => s.registrations[reg.id]? = some (src, reg.token)
  | .deregister (.returning src reg) =>
    s.registrations[reg.id]? = some (src, reg.token) ∧
      ∀ token entry, s.registery token = some entry → entry.handler ≠ reg.id
  | .dispatch _ (.found r handler) => handler = r.reg.id ∧ .deregistered handler ∉ s.history
  | _ => True

/-- Each registration is in its place. -/
structure Shared.Sound (s : Shared) : Prop where
  polled : ∀ src reg, s.polled src = some reg → s.registrations[reg.id]? = some (src, reg.token)
  entered : ∀ token entry, s.registery token = some entry →
    (∃ src, s.registrations[entry.handler]? = some (src, token)) ∧
      .deregistered entry.handler ∉ s.history
  known : ∀ id, .deregistered id ∈ s.history → id < s.registrations.length
  proper : Throughout Proper s.history

structure Tidy (s : State) : Prop where
  exclusive : ∀ src, Guarded (Thread.borrows src) (fun x => x.borrowed src) s
  fits : ∀ t ∈ s.threads, t.Fits s.shared
  sound : s.shared.Sound

section

variable {s s' : Shared} {t t' : Thread} {l l' : List Thread} {o : Choice}

theorem source_resume (site : Site) : site.resume.source = none := by
  cases site <;> rfl

theorem source_unwind (s : Shared) (site : Site) : (site.unwind s).2.source = none := by
  cases site <;> rfl

/-- A thread gives its source back or keeps it. -/
theorem source_act (h : Acts s t o s' t') :
    (t'.source = t.source ∧ s'.borrowed = s.borrowed) ∨
      ∃ src, t.source = some src ∧ t'.source = none ∧
        s'.borrowed = Function.update s.borrowed src false := by
  cases h with
  | refuse src | insert src | decline src | confirm src => exact .inr ⟨src, rfl, rfl, rfl⟩
  | miss site r hlookup => exact .inl ⟨source_resume site, rfl⟩
  | finish site => exact .inl ⟨source_resume site, rfl⟩
  | panic site => exact .inl ⟨source_unwind s site, by cases site <;> rfl⟩
  | _ => exact .inl ⟨rfl, rfl⟩

theorem exclusive_act (h : ∀ src, Guarded (Thread.borrows src) (fun x => x.borrowed src) ⟨s, l ++ t :: l'⟩)
    (hact : Acts s t o s' t') (src : ℕ) :
    Guarded (Thread.borrows src) (fun x => x.borrowed src) ⟨s', l ++ t' :: l'⟩ := by
  refine (h src).act ?_
  rcases source_act hact with ⟨hsource, hborrowed⟩ | ⟨src', hbefore, hafter, hborrowed⟩
  · left
    simp only [Thread.borrows, hsource, hborrowed]
  · by_cases heq : src' = src
    · subst heq
      exact .inr ⟨by simp [Thread.borrows, hbefore], by simp [Thread.borrows, hafter],
        by simp [hborrowed]⟩
    · left
      simp [Thread.borrows, hbefore, hafter, hborrowed, heq, Function.update_of_ne (Ne.symm heq)]

/-- Two threads borrow different sources. -/
theorem source_ne {src : ℕ} {u : Thread}
    (h : ∀ src, Guarded (Thread.borrows src) (fun x => x.borrowed src) ⟨s, l ++ t :: l'⟩)
    (ht : t.source = some src) (hu : u ∈ l ++ l') : u.source ≠ some src := by
  intro hsource
  have hzero := (h src).others (by simp [Thread.borrows, ht]) hu
  simp [Thread.borrows, hsource] at hzero

/-! ## One step -/

theorem registrations_act (h : Acts s t o s' t') :
    ∃ more, s'.registrations = s.registrations ++ more := by
  cases h with
  | watch => exact ⟨_, rfl⟩
  | panic site => cases site <;> exact ⟨[], (List.append_nil _).symm⟩
  | _ => exact ⟨[], (List.append_nil _).symm⟩

theorem registration_mono {more : List (ℕ × Token)} {id : ℕ} {x : ℕ × Token}
    (hmore : s'.registrations = s.registrations ++ more) (h : s.registrations[id]? = some x) :
    s'.registrations[id]? = some x := by
  have hlt := (List.getElem?_eq_some_iff.1 h).1
  rw [hmore, List.getElem?_append_left hlt, h]

/-- What a thread relies on is kept by a step that enters no handler it waits to see gone
    and deregisters none that it holds. -/
theorem Thread.Fits.mono {more : List (ℕ × Token)} (h : t.Fits s)
    (hmore : s'.registrations = s.registrations ++ more)
    (hentered : ∀ src reg, t = .deregister (.returning src reg) → ∀ token entry,
      s'.registery token = some entry → s.registery token = some entry ∨ entry.handler ≠ reg.id)
    (hinserting : ∀ src reg, t = .register (.inserting src reg) →
      .deregistered reg.id ∈ s'.history → .deregistered reg.id ∈ s.history)
    (hfound : ∀ site r handler, t = .dispatch site (.found r handler) →
      .deregistered handler ∈ s'.history → .deregistered handler ∈ s.history) : t.Fits s' := by
  unfold Thread.Fits at h ⊢
  split at h
  · exact ⟨registration_mono hmore h.1, fun hmem => h.2 (hinserting _ _ rfl hmem)⟩
  · exact registration_mono hmore h
  · refine ⟨registration_mono hmore h.1, fun token entry hentry => ?_⟩
    exact (hentered _ _ rfl token entry hentry).elim (h.2 token entry) id
  · exact ⟨h.1, fun hmem => h.2 (hfound _ _ _ rfl hmem)⟩
  · trivial

theorem lookup_entered {event : Event} {handler : ℕ} (h : s.lookup event = some handler) :
    ∃ entry, s.registery event.token = some entry ∧ entry.handler = handler := by
  obtain ⟨entry, hentry, hselect⟩ := Option.bind_eq_some_iff.1 h
  exact ⟨entry, hentry, (HandlerEntry.eq_of_select hselect).symm⟩

/-- A handler that another thread is about to enter, or to see gone, is that of another
    registration. -/
theorem id_ne {src src' : ℕ} {token token' : Token} {id id' : ℕ}
    (h : s.registrations[id]? = some (src, token)) (h' : s.registrations[id']? = some (src', token'))
    (hne : src ≠ src') : id ≠ id' := by
  rintro rfl
  exact hne (congrArg Prod.fst (Option.some.inj (h.symm.trans h')))

/-- A step that enters no handler and deregisters none. -/
theorem Shared.Sound.mono (h : s.Sound) (more : List (ℕ × Token)) (evs : List Record)
    (hmore : s'.registrations = s.registrations ++ more)
    (hpolled : ∀ src reg, s'.polled src = some reg →
      s.polled src = some reg ∨ s'.registrations[reg.id]? = some (src, reg.token))
    (hentered : ∀ token entry, s'.registery token = some entry → s.registery token = some entry)
    (hhistory : s'.history = s.history ++ evs) (hevs : ∀ id, .deregistered id ∉ evs)
    (hproper : Throughout Proper s'.history) : s'.Sound := by
  have hgone : ∀ id, .deregistered id ∈ s'.history → .deregistered id ∈ s.history := by
    intro id hmem
    rw [hhistory] at hmem
    exact (List.mem_append.1 hmem).resolve_right (hevs id)
  refine ⟨fun src reg hsrc => ?_, fun token entry hentry => ?_, fun id hmem => ?_, hproper⟩
  · exact (hpolled src reg hsrc).elim (fun hold => registration_mono hmore (h.polled src reg hold)) id
  · obtain ⟨⟨src, hsrc⟩, hlive⟩ := h.entered token entry (hentered token entry hentry)
    exact ⟨⟨src, registration_mono hmore hsrc⟩, fun hmem => hlive (hgone _ hmem)⟩
  · have hlt := h.known id (hgone id hmem)
    rw [hmore, List.length_append]
    exact Nat.lt_add_right _ hlt

namespace Shared.Sound

/-- A step that leaves the registrations, the poller, the registry and the history alone. -/
theorem of_eq (h : s.Sound) (hregistrations : s'.registrations = s.registrations)
    (hpolled : s'.polled = s.polled) (hregistery : s'.registery = s.registery)
    (hhistory : s'.history = s.history) : s'.Sound := by
  refine h.mono [] [] (by simpa using hregistrations) (fun src reg hsrc => .inl (hpolled ▸ hsrc))
    (fun token entry hentry => hregistery ▸ hentry) (by simpa using hhistory)
    (fun _ => List.not_mem_nil) ?_
  rw [hhistory]
  exact h.proper

theorem watch (h : s.Sound) (src : ℕ) {reg : Registration} (hid : reg.id = s.registrations.length) :
    (s.watch src reg).Sound := by
  refine h.mono [(src, reg.token)] [] rfl (fun src' reg' hpolled => ?_) (fun _ _ hentry => hentry)
    (List.append_nil _).symm (fun _ => List.not_mem_nil) h.proper
  rcases eq_or_ne src' src with rfl | hne
  · right
    obtain rfl : reg = reg' := by simpa [Shared.watch] using hpolled
    simp [Shared.watch, hid]
  · left
    simpa [Shared.watch, Function.update_of_ne hne] using hpolled

/-- The handler goes into the registry under the token of its registration. -/
theorem insert (h : s.Sound) {src : ℕ} {reg : Registration}
    (hreg : s.registrations[reg.id]? = some (src, reg.token))
    (hlive : .deregistered reg.id ∉ s.history) : ((s.insert reg).release src).Sound := by
  refine ⟨h.polled, fun token entry hentry => ?_, h.known, h.proper⟩
  rcases eq_or_ne token reg.token with rfl | hne
  · obtain rfl : reg.entry = entry := by
      simpa [Shared.insert, Shared.release] using hentry
    exact ⟨⟨src, hreg⟩, hlive⟩
  · refine h.entered token entry ?_
    simpa [Shared.insert, Shared.release, Function.update_of_ne hne] using hentry

theorem unwatch (h : s.Sound) (src : ℕ) : (s.unwatch src).Sound :=
  h.mono [] [] (List.append_nil _).symm (fun _ _ hsrc => .inl (polled_of_unwatch hsrc))
    (fun _ _ hentry => hentry) (List.append_nil _).symm (fun _ => List.not_mem_nil) h.proper

theorem remove (h : s.Sound) (token : Token) : (s.remove token).Sound :=
  h.mono [] [] (List.append_nil _).symm (fun _ _ hsrc => .inl hsrc)
    (fun _ _ hentry => registery_of_remove hentry) (List.append_nil _).symm
    (fun _ => List.not_mem_nil) h.proper

/-- The call of `deregister` returns when the registry has no handler of the registration. -/
theorem confirm (h : s.Sound) {src : ℕ} {reg : Registration}
    (hreg : s.registrations[reg.id]? = some (src, reg.token))
    (hgone : ∀ token entry, s.registery token = some entry → entry.handler ≠ reg.id) :
    ((s.release src).record (.deregistered reg.id)).Sound := by
  refine ⟨h.polled, fun token entry hentry => ?_, fun id hmem => ?_, h.proper.concat trivial⟩
  · obtain ⟨hsrc, hlive⟩ := h.entered token entry hentry
    refine ⟨hsrc, fun hmem => ?_⟩
    rcases List.mem_append.1 hmem with hmem | hmem
    · exact hlive hmem
    · exact hgone token entry hentry (by simpa using hmem)
  · rcases List.mem_append.1 hmem with hmem | hmem
    · exact h.known id hmem
    · cases List.mem_singleton.1 hmem
      exact (List.getElem?_eq_some_iff.1 hreg).1

theorem poll (h : s.Sound) (ready : List (ℕ × Bool × Bool)) : (s.poll ready).Sound := by
  have hreported : Throughout Proper (s.poll ready).history := by
    refine h.proper.append fun ev hmem pre => ?_
    obtain ⟨r, -, rfl⟩ := List.mem_map.1 hmem
    trivial
  refine h.mono [] _ (List.append_nil _).symm (fun _ _ hsrc => .inl hsrc) (fun _ _ hentry => hentry)
    rfl (fun id hmem => ?_) hreported
  obtain ⟨r, -, heq⟩ := List.mem_map.1 hmem
  cases heq

theorem called (h : s.Sound) {r : Report} {handler : ℕ} (hproper : Proper s.history (.called r handler)) :
    (s.record (.called r handler)).Sound :=
  h.mono [] [.called r handler] (List.append_nil _).symm (fun _ _ hsrc => .inl hsrc)
    (fun _ _ hentry => hentry) rfl (fun _ hmem => by simp at hmem) (h.proper.concat hproper)

end Shared.Sound

theorem Tidy.sound_act (h : Tidy ⟨s, l ++ t :: l'⟩) (hact : Acts s t o s' t') : s'.Sound := by
  have hsound : s.Sound := h.sound
  have hfits : t.Fits s := h.fits t (by simp)
  cases hact with
  | watch src reg hid => exact hsound.watch src hid
  | insert src reg => exact hsound.insert hfits.1 hfits.2
  | unwatch src token reg hpolled => exact hsound.unwatch src
  | remove src token reg => exact hsound.remove token
  | confirm src reg => exact hsound.confirm hfits.1 hfits.2
  | poll ready => exact hsound.poll ready
  | call site r handler => exact hsound.called ⟨hfits.2, hfits.1⟩
  | panic site => cases site <;> exact hsound.of_eq rfl rfl rfl rfl
  | _ => exact hsound.of_eq rfl rfl rfl rfl

theorem Tidy.fits_act (h : Tidy ⟨s, l ++ t :: l'⟩) (hok : t.cleared ⟨s, l ++ t :: l'⟩ = true)
    (hact : Acts s t o s' t') : t'.Fits s' := by
  have hsound : s.Sound := h.sound
  have hfits : t.Fits s := h.fits t (by simp)
  cases hact with
  | watch src reg hid =>
    refine ⟨by simp [Shared.watch, hid], fun hmem => ?_⟩
    have hlt := hsound.known reg.id hmem
    omega
  | unwatch src token reg hpolled => exact hsound.polled src reg hpolled
  | remove src token reg =>
    obtain rfl : token = reg.token := by simpa [Thread.cleared] using hok
    refine ⟨hfits, fun token' entry hentry heq => ?_⟩
    by_cases htoken : token' = reg.token
    · subst htoken
      simp [Shared.remove] at hentry
    · have hold : s.registery token' = some entry := by
        simpa [Shared.remove, Function.update_of_ne htoken] using hentry
      -- The handler of a registration is under the token of the registration only.
      obtain ⟨src', hsrc'⟩ := (hsound.entered token' entry hold).1
      rw [heq] at hsrc'
      exact htoken (congrArg Prod.snd (Option.some.inj (hsrc'.symm.trans hfits)))
  | find site r handler hlookup =>
    obtain ⟨entry, hentry, rfl⟩ := lookup_entered hlookup
    refine ⟨?_, (hsound.entered _ entry hentry).2⟩
    simpa [Thread.cleared, hlookup] using hok
  | miss site => cases site <;> trivial
  | finish site => cases site <;> trivial
  | panic site => cases site <;> trivial
  | _ => trivial

theorem Tidy.act (h : Tidy ⟨s, l ++ t :: l'⟩) (hok : t.cleared ⟨s, l ++ t :: l'⟩ = true)
    (hact : Acts s t o s' t') : Tidy ⟨s', l ++ t' :: l'⟩ := by
  refine ⟨exclusive_act h.exclusive hact, ?_, h.sound_act hact⟩
  rw [Machine.forall_threads_at]
  refine ⟨h.fits_act hok hact, fun u hu => ?_⟩
  have hfits : t.Fits s := h.fits t (by simp)
  have hother : u.Fits s := (Machine.forall_threads_at.1 h.fits).2 u hu
  obtain ⟨more, hmore⟩ := registrations_act hact
  have hkept : (∀ token entry, s'.registery token = some entry → s.registery token = some entry) →
      (∀ id, .deregistered id ∈ s'.history → .deregistered id ∈ s.history) → u.Fits s' := by
    intro hentered hhistory
    exact hother.mono hmore (fun _ _ _ token entry hentry => .inl (hentered token entry hentry))
      (fun _ _ _ => hhistory _) fun _ _ _ _ => hhistory _
  cases hact with
  | insert src reg =>
    refine hother.mono hmore (fun src' reg' heq token entry hentry => ?_) (fun _ _ _ hmem => hmem)
      fun _ _ _ _ hmem => hmem
    by_cases htoken : token = reg.token
    · -- The source of the call of `deregister` is another one.
      subst htoken heq
      obtain rfl : reg.entry = entry := by
        simpa [Shared.insert, Shared.release] using hentry
      have hne : src ≠ src' := fun hsrc =>
        source_ne h.exclusive rfl hu (congrArg some hsrc.symm)
      exact .inr (id_ne hfits.1 hother.1 hne)
    · left
      simpa [Shared.insert, Shared.release, Function.update_of_ne htoken] using hentry
  | confirm src reg =>
    refine hother.mono hmore (fun _ _ _ token entry hentry => .inl hentry)
      (fun src' reg' heq hmem => ?_) fun site r handler heq hmem => ?_
    · rcases List.mem_append.1 hmem with hmem | hmem
      · exact hmem
      · subst heq
        have hne : src ≠ src' := fun hsrc =>
          source_ne h.exclusive rfl hu (congrArg some hsrc.symm)
        have hid : reg'.id = reg.id := by simpa using hmem
        exact absurd hid.symm (id_ne hfits.1 hother.1 hne)
    · rcases List.mem_append.1 hmem with hmem | hmem
      · exact hmem
      · subst heq
        have hid : handler = reg.id := by simpa using hmem
        have hnone : ∀ v ∈ l ++ .deregister (.returning src reg) :: l', v.hasFound reg.id = false := by
          intro v hv
          simpa using List.all_eq_true.1 hok v hv
        have hfound := (Machine.forall_threads_at.1 hnone).2 _ hu
        simp [Thread.hasFound, hid] at hfound
  | remove src token reg =>
    exact hkept (fun token' entry hentry => registery_of_remove hentry) fun _ hmem => hmem
  | poll ready =>
    refine hkept (fun _ _ hentry => hentry) fun id hmem => ?_
    exact (List.mem_append.1 hmem).resolve_right (by simp)
  | call site r handler =>
    refine hkept (fun _ _ hentry => hentry) fun id hmem => ?_
    exact (List.mem_append.1 hmem).resolve_right (by simp)
  | panic site => cases site <;> exact hkept (fun _ _ hentry => hentry) fun _ hmem => hmem
  | _ => exact hkept (fun _ _ hentry => hentry) fun _ hmem => hmem

/-! ## Every run -/

/-- A call borrows a source that is free. -/
theorem exclusive_borrow {ts : List Thread} {src : ℕ} (hfree : s.borrowed src = false)
    (hsource : t.source = some src)
    (h : ∀ src, Guarded (Thread.borrows src) (fun x => x.borrowed src) ⟨s, ts⟩) (src' : ℕ) :
    Guarded (Thread.borrows src') (fun x => x.borrowed src') ⟨s.borrow src, ts ++ [t]⟩ := by
  have htotal : Machine.total (Thread.borrows src') ts = (s.borrowed src').toNat := h src'
  simp only [Guarded, Machine.total_append, Machine.total_cons, Machine.total_nil, htotal]
  by_cases heq : src' = src
  · subst heq
    simp [Thread.borrows, hsource, hfree, Shared.borrow]
  · simp [Thread.borrows, hsource, Ne.symm heq, Shared.borrow, Function.update_of_ne heq]

theorem Tidy.join {ts : List Thread} (h : Tidy ⟨s, ts⟩)
    (hexclusive : ∀ src, Guarded (Thread.borrows src) (fun x => x.borrowed src) ⟨s', ts ++ [t]⟩)
    (hpolled : s'.polled = s.polled) (hregistery : s'.registery = s.registery)
    (hregistrations : s'.registrations = s.registrations) (hhistory : s'.history = s.history)
    (hfits : t.Fits s') : Tidy ⟨s', ts ++ [t]⟩ := by
  have hsound : s.Sound := h.sound
  have hmore : s'.registrations = s.registrations ++ [] := by simpa using hregistrations
  refine ⟨hexclusive, fun u hu => ?_, ?_⟩
  · rcases List.mem_append.1 hu with hu | hu
    · refine (h.fits u hu).mono hmore (fun _ _ _ token entry hentry => .inl ?_)
        (fun _ _ _ hmem => hhistory ▸ hmem) fun _ _ _ _ hmem => hhistory ▸ hmem
      exact hregistery ▸ hentry
    · exact List.mem_singleton.1 hu ▸ hfits
  · exact hsound.mono [] [] hmore (fun src reg hsrc => .inl (hpolled ▸ hsrc))
      (fun token entry hentry => hregistery ▸ hentry) (by simpa using hhistory)
      (fun _ => List.not_mem_nil) (hhistory ▸ hsound.proper)

theorem Tidy.enter {e : Input} {ts us : List Thread} (h : Tidy ⟨s, ts⟩)
    (he : enter s e = some (s', us)) : Tidy ⟨s', ts ++ us⟩ := by
  cases e with
  | register src token interest =>
    simp only [Dispatch.enter] at he
    split at he
    · cases he
    · rename_i hfree
      cases he
      exact h.join (exclusive_borrow (Bool.eq_false_iff.2 hfree) rfl h.exclusive) rfl rfl rfl rfl trivial
  | deregister src token =>
    simp only [Dispatch.enter] at he
    split at he
    · cases he
    · rename_i hfree
      cases he
      exact h.join (exclusive_borrow (Bool.eq_false_iff.2 hfree) rfl h.exclusive) rfl rfl rfl rfl trivial
  | run =>
    simp only [Dispatch.enter] at he
    split at he
    · cases he
    · cases he
      refine h.join (fun src => (h.exclusive src).env rfl ?_) rfl rfl rfl rfl trivial
      simp [Thread.borrows, Thread.source]

theorem tidy_of_run {capacity : ℕ} {directDispatch : Bool} {as : List Step} {s : State}
    (h : Run system.step Cleared (initial capacity directDispatch) as s) : Tidy s := by
  refine Machine.invariant_of_run (J := fun _ => True) h (fun _ _ _ => trivial) ?_ ?_ ?_
  · refine ⟨fun src => Machine.total_eq_zero fun t ht => ?_, fun t ht => ?_, ?_⟩
    · obtain ⟨id, -, rfl⟩ := List.mem_map.1 ht
      rfl
    · obtain ⟨id, -, rfl⟩ := List.mem_map.1 ht
      trivial
    · exact ⟨nofun, nofun, fun id hmem => absurd hmem List.not_mem_nil, throughout_nil⟩
  · exact fun x ts e y us _ hx _ he => hx.enter he
  · exact fun x l l' t o y t' _ hx hok hr =>
      hx.act (Machine.threadSteps_at.1 hok) (acts_of_proceed hr)

/-- In every run whose look-ups and deregistrations meet the condition: when
    `deregister` has returned, the handler is not called any more, and no handler is
    ever called with an event of another registration. -/
theorem silent_after_deregister {capacity : ℕ} {directDispatch : Bool} {as : List Step} {s : State}
    (h : Run system.step Cleared (initial capacity directDispatch) as s) :
    Throughout Proper s.shared.history :=
  (tidy_of_run h).sound.proper

end

/-- An event is handled, and the source deregistered after that. -/
def handledAndDeregistered : List Step :=
  [.env .run, .env (.register 0 5 .readableOnly), .act 2 .goes, .act 2 .goes,
    .act 1 (.polls [(0, true, false)]), .act 1 .goes, .act 0 .goes, .act 0 .goes, .act 0 .goes,
    .env (.deregister 0 5), .act 3 .goes, .act 3 .goes, .act 3 .goes]

theorem silent_after_deregister_handled : ∃ s,
    Run system.step Cleared (initial 1 false) handledAndDeregistered s ∧
      .deregistered 0 ∈ s.shared.history ∧
      .called ⟨0, ⟨0, 5, .readableOnly⟩, ⟨5, true, false⟩⟩ 0 ∈ s.shared.history ∧
      Throughout Proper s.shared.history := by
  have hend : ∃ s, Run system.step Cleared (initial 1 false) handledAndDeregistered s ∧
      .deregistered 0 ∈ s.shared.history ∧
      .called ⟨0, ⟨0, 5, .readableOnly⟩, ⟨5, true, false⟩⟩ 0 ∈ s.shared.history :=
    Run.exists_of_exec (by decide +kernel)
  obtain ⟨s, hrun, hderegistered, hcalled⟩ := hend
  exact ⟨s, hrun, hderegistered, hcalled, silent_after_deregister hrun⟩

/-- Two events of a source are queued, and the handler of the first has been found when
    the source is deregistered and another one registered under the token. The first
    handler is called after that, and the second handler with the second event. -/
theorem called_after_deregister : ∃ s, Run system.step Unrestricted (initial 2 false)
      [.env .run, .env (.register 0 5 .readableOnly), .act 3 .goes, .act 3 .goes,
        .act 2 (.polls [(0, true, false)]), .act 2 .goes, .act 2 .goes,
        .act 2 (.polls [(0, true, false)]), .act 2 .goes, .act 0 .goes, .act 0 .goes,
        .env (.deregister 0 5), .act 4 .goes, .act 4 .goes, .act 4 .goes,
        .env (.register 1 5 .readableOnly), .act 5 .goes, .act 5 .goes,
        .act 0 .goes, .act 1 .goes, .act 1 .goes, .act 1 .goes] s ∧
    .deregister (.returned true) ∈ s.threads ∧
    s.shared.history.drop 2 = [.deregistered 0,
      .called ⟨0, ⟨0, 5, .readableOnly⟩, ⟨5, true, false⟩⟩ 0,
      .called ⟨1, ⟨0, 5, .readableOnly⟩, ⟨5, true, false⟩⟩ 1] ∧
    ¬ Throughout Proper s.shared.history := by
  have hend : ∃ s, Run system.step Unrestricted (initial 2 false)
        [.env .run, .env (.register 0 5 .readableOnly), .act 3 .goes, .act 3 .goes,
          .act 2 (.polls [(0, true, false)]), .act 2 .goes, .act 2 .goes,
          .act 2 (.polls [(0, true, false)]), .act 2 .goes, .act 0 .goes, .act 0 .goes,
          .env (.deregister 0 5), .act 4 .goes, .act 4 .goes, .act 4 .goes,
          .env (.register 1 5 .readableOnly), .act 5 .goes, .act 5 .goes,
          .act 0 .goes, .act 1 .goes, .act 1 .goes, .act 1 .goes] s ∧
      .deregister (.returned true) ∈ s.threads ∧
      s.shared.history = [.reported ⟨0, ⟨0, 5, .readableOnly⟩, ⟨5, true, false⟩⟩,
        .reported ⟨1, ⟨0, 5, .readableOnly⟩, ⟨5, true, false⟩⟩, .deregistered 0,
        .called ⟨0, ⟨0, 5, .readableOnly⟩, ⟨5, true, false⟩⟩ 0,
        .called ⟨1, ⟨0, 5, .readableOnly⟩, ⟨5, true, false⟩⟩ 1] := Run.exists_of_exec (by decide +kernel)
  obtain ⟨s, hrun, hreturned, hhistory⟩ := hend
  refine ⟨s, hrun, hreturned, by rw [hhistory]; rfl, fun hproper => ?_⟩
  have hcalled := hproper [_, _, _, _] _ [] hhistory
  cases hcalled.2

end Dispatch
