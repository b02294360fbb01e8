/-
Laws of actions: what running a composed action leaves, in terms of what
running its parts leaves. Proofs about actions take them apart with these
and never open the monad.
-/
import TaggedSource.Action

namespace TaggedSource.Action

variable {σ τ α β : Type}

-- ============================================================== leaves

@[simp]
theorem run_pure (x : α) (s : σ) : (pure x : Action σ α).run s = ⟨.ok x, [], s⟩ := rfl

/-- A failure leaves the state as it is. -/
@[simp]
theorem run_fail (cause : Failure) (s : σ) :
    (fail cause : Action σ α).run s = ⟨.error cause, [], s⟩ := rfl

@[simp]
theorem run_log (events : List Log.Event) (s : σ) :
    (log events).run s = ⟨.ok (), events, s⟩ := rfl

@[simp]
theorem run_get (s : σ) : (get : Action σ σ).run s = ⟨.ok s, [], s⟩ := rfl

@[simp]
theorem run_set (s' s : σ) : (set s').run s = ⟨.ok (), [], s'⟩ := rfl

/-- A result that is given touches nothing and logs nothing. -/
@[simp]
theorem run_ofExcept (r : Except Failure α) (s : σ) : (ofExcept r).run s = ⟨r, [], s⟩ := by
  cases r <;> rfl

-- ======================================================== composition

/-- What one action leaves, when another goes on from an outcome. -/
def goOn (o : Outcome σ α) (f : α → Action σ β) : Outcome σ β :=
  match o.result with
  | .error cause => ⟨.error cause, o.log, o.state⟩
  | .ok x =>
    ⟨((f x).run o.state).result, o.log ++ ((f x).run o.state).log, ((f x).run o.state).state⟩

/-- What comes second is run where the first has come to its end. -/
theorem run_bind (a : Action σ α) (f : α → Action σ β) (s : σ) :
    (a >>= f).run s = goOn (a.run s) f := rfl

/-- Behind a failure nothing is done. -/
@[simp]
theorem goOn_error (cause : Failure) (events : List Log.Event) (s : σ)
    (f : α → Action σ β) :
    goOn ⟨.error cause, events, s⟩ f = ⟨.error cause, events, s⟩ := rfl

/-- Going on runs the rest in the state that was left, and adds to the log. -/
@[simp]
theorem goOn_ok (x : α) (events : List Log.Event) (s : σ) (f : α → Action σ β) :
    goOn ⟨.ok x, events, s⟩ f
      = ⟨((f x).run s).result, events ++ ((f x).run s).log, ((f x).run s).state⟩ := rfl

/-- An action that only computes with a result changes nothing else. -/
theorem goOn_pure (o : Outcome σ α) (g : α → β) :
    goOn o (fun x => (pure (g x) : Action σ β)) = ⟨o.result.map g, o.log, o.state⟩ := by
  obtain ⟨result, events, s⟩ := o
  cases result with
  | error cause => rfl
  | ok x => simp [Except.map]

/-- Going on twice is going on with both. -/
private theorem goOn_goOn {γ : Type} (o : Outcome σ α) (f : α → Action σ β) (g : β → Action σ γ) :
    goOn (goOn o f) g = goOn o fun x => f x >>= g := by
  obtain ⟨result, events, s⟩ := o
  cases result with
  | error cause => rfl
  | ok x =>
      rw [goOn_ok, goOn_ok, run_bind]
      obtain ⟨result, events', s'⟩ := (f x).run s
      cases result with
      | error cause => rfl
      | ok y => simp [List.append_assoc]

/-- A row of actions is its first part and, on its result, the rest. -/
theorem run_foldlM_append (f : β → α → Action σ β) (as bs : List α) (x : β) (s : σ) :
    ((as ++ bs).foldlM f x).run s = goOn ((as.foldlM f x).run s) fun y => bs.foldlM f y := by
  induction as generalizing x s with
  | nil =>
      show (bs.foldlM f x).run s = goOn ⟨.ok x, [], s⟩ _
      rw [goOn_ok, List.nil_append]
  | cons a as ih =>
      rw [List.cons_append, List.foldlM_cons, List.foldlM_cons, run_bind, run_bind, goOn_goOn]
      obtain ⟨result, events, s'⟩ := (f x a).run s
      cases result with
      | error cause => rfl
      | ok y => rw [goOn_ok, goOn_ok, ih, run_bind]

-- ====================================================== on the outside

/-- An action on a part of the state sees the part only. -/
@[simp]
theorem run_onPart (part : σ → τ) (withPart : σ → τ → σ) (a : Action τ α) (s : σ) :
    (a.onPart part withPart).run s
      = ⟨(a.run (part s)).result, (a.run (part s)).log, withPart s (a.run (part s)).state⟩ :=
  rfl

/-- A failure is wrapped; the log and the state are left as they are. -/
@[simp]
theorem run_onFailure (a : Action σ α) (wrap : Failure → Failure) (s : σ) :
    (a.onFailure wrap).run s
      = ⟨(a.run s).result.mapError wrap, (a.run s).log, (a.run s).state⟩ := rfl

/-- An attempt does not fail: it hands the result on. -/
@[simp]
theorem run_attempt (a : Action σ α) (s : σ) :
    a.attempt.run s = ⟨.ok (a.run s).result, (a.run s).log, (a.run s).state⟩ := rfl

-- ==================================================== keeping the state

/-- An action that leaves the state as it finds it. -/
def Keeps (a : Action σ α) : Prop := ∀ s, (a.run s).state = s

theorem keeps_pure (x : α) : Keeps (pure x : Action σ α) := fun _ => rfl

/-- Even what fails keeps the state. -/
theorem keeps_fail (cause : Failure) : Keeps (fail cause : Action σ α) := fun _ => rfl

theorem keeps_log (events : List Log.Event) : Keeps (log events : Action σ Unit) := fun _ => rfl

theorem keeps_get : Keeps (get : Action σ σ) := fun _ => rfl

/-- A result that is given keeps the state. -/
theorem keeps_ofExcept (r : Except Failure α) : Keeps (ofExcept r : Action σ α) := by
  intro s
  rw [run_ofExcept]

/-- Behind an action that keeps the state and has a result, the next one runs
on the state. -/
theorem Keeps.run_bind_of_ok {a : Action σ α} {f : α → Action σ β} {s : σ} (ha : a.Keeps) {x : α}
    (h : (a.run s).result = .ok x) :
    ((a >>= f).run s).result = ((f x).run s).result ∧
      ((a >>= f).run s).state = ((f x).run s).state := by
  have hfirst := ha s
  rw [Action.run_bind]
  generalize a.run s = o at hfirst h ⊢
  obtain ⟨result, events, s'⟩ := o
  obtain rfl : s' = s := hfirst
  obtain rfl : result = .ok x := h
  exact ⟨rfl, rfl⟩

/-- Behind an action that keeps the state, the next one runs on the state,
unless the first has failed. -/
theorem Keeps.run_bind {P : Except Failure β → σ → Prop} {a : Action σ α} {f : α → Action σ β}
    {s : σ} (ha : a.Keeps) (hfail : ∀ cause, P (.error cause) s)
    (hgoes : ∀ x, (a.run s).result = .ok x → P ((f x).run s).result ((f x).run s).state) :
    P ((a >>= f).run s).result ((a >>= f).run s).state := by
  cases hresult : (a.run s).result with
  | ok x =>
      obtain ⟨hsame, hstate⟩ := ha.run_bind_of_ok (f := f) hresult
      rw [hsame, hstate]
      exact hgoes x hresult
  | error cause =>
      have hfirst := ha s
      rw [Action.run_bind]
      generalize a.run s = o at hfirst hresult ⊢
      obtain ⟨result, events, s'⟩ := o
      obtain rfl : s' = s := hfirst
      obtain rfl : result = .error cause := hresult
      exact hfail cause

/-- Two actions that keep the state keep it one after the other. -/
theorem Keeps.bind {a : Action σ α} {f : α → Action σ β} (ha : a.Keeps) (hf : ∀ x, (f x).Keeps) :
    (a >>= f).Keeps := by
  intro s
  exact ha.run_bind (P := fun _ s' => s' = s) (fun _ => rfl) fun x _ => hf x s

/-- What keeps a part of the state keeps the state, if a part can be put
back. -/
theorem Keeps.onPart {part : σ → τ} {withPart : σ → τ → σ} {a : Action τ α} (ha : a.Keeps)
    (hpart : ∀ s, withPart s (part s) = s) : (a.onPart part withPart).Keeps := by
  intro s
  rw [run_onPart]
  simp only
  rw [ha, hpart]

end TaggedSource.Action
