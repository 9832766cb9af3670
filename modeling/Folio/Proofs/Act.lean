import Folio.Fault

/-!
# Running steps

What a step does to a state, for each way of putting steps together. With these equations a step is
opened from the outside in, and nobody looks at the transformers it is made of.

`Keeps` says that a step leaves a property of the state alone, whether it succeeds or fails,
`Yields` says besides what its answers are like, and `Leads` tells a success from a failure.
`Passes` says that a step either succeeds or fails as a malformed operator does, so that whoever
skips such operators goes on. `FailsClean` says that a step that fails has changed nothing, which is
so of steps that only look (`Observes`) followed by steps that never fail (`Succeeds`). `Mirrors`
says that a step is another one to whoever sees only a part of its states, `Carries` that a change
of the state comes to the same before the step and after it, and `Tracks` that states which are
alike lead to such states again.
-/

namespace Folio.Act

variable {σ τ β γ : Type}

@[simp] theorem run_pure (b : β) (s : σ) : (pure b : Act σ β).run s = (.ok b, s) := rfl

@[simp] theorem run_throw (e : Fault) (s : σ) : (throw e : Act σ β).run s = (.error e, s) := rfl

@[simp] theorem run_get (s : σ) : (get : Act σ σ).run s = (.ok s, s) := rfl

@[simp] theorem run_set (t s : σ) : (set t : Act σ PUnit).run s = (.ok ⟨⟩, t) := rfl

@[simp] theorem run_modify (f : σ → σ) (s : σ) :
    (modify f : Act σ PUnit).run s = (.ok ⟨⟩, f s) := rfl

@[simp] theorem run_ofExcept (x : Except Fault β) (s : σ) :
    (ofExcept x : Act σ β).run s = (x, s) := by
  cases x <;> rfl

theorem ofExcept_bind (x : Except Fault β) (f : β → Except Fault γ) :
    (ofExcept (x >>= f) : Act σ γ) = ofExcept x >>= fun b => ofExcept (f b) := by
  cases x with
  | error e => rfl
  | ok b => exact (pure_bind b fun b => ofExcept (f b)).symm

theorem run_bind (x : Act σ β) (f : β → Act σ γ) (s : σ) :
    (x >>= f).run s = match x.run s with
      | (.ok b, t) => (f b).run t
      | (.error e, t) => (.error e, t) := by
  have hcont : ∀ r : Except Fault β × σ, ExceptT.bindCont f r.1 r.2 = match r with
      | (.ok b, t) => (f b).run t
      | (.error e, t) => (.error e, t) := by
    rintro ⟨_ | _, t⟩ <;> rfl
  exact hcont (x s)

/-- A step whose first part succeeds goes on from where that part ends. -/
theorem run_bind_ok {x : Act σ β} {f : β → Act σ γ} {s t : σ} {b : β} (h : x.run s = (.ok b, t)) :
    (x >>= f).run s = (f b).run t := by
  rw [run_bind, h]

/-- A step whose first part fails ends there. -/
theorem run_bind_error {x : Act σ β} {f : β → Act σ γ} {s t : σ} {e : Fault}
    (h : x.run s = (.error e, t)) : (x >>= f).run s = (.error e, t) := by
  rw [run_bind, h]

/-- A step that succeeds has succeeded in both of its parts. -/
theorem run_bind_eq_ok {x : Act σ β} {f : β → Act σ γ} {s u : σ} {a : γ}
    (h : (x >>= f).run s = (.ok a, u)) :
    ∃ b t, x.run s = (.ok b, t) ∧ (f b).run t = (.ok a, u) := by
  rw [run_bind] at h
  rcases hrun : x.run s with ⟨e | b, t⟩
  · rw [hrun] at h
    cases h
  · rw [hrun] at h
    exact ⟨b, t, rfl, h⟩

/-- A conversion that succeeds leaves the state to what follows. -/
theorem run_ofExcept_bind_eq_ok {x : Except Fault β} {f : β → Act σ γ} {s u : σ} {a : γ}
    (h : (ofExcept x >>= f).run s = (.ok a, u)) :
    ∃ b, x = .ok b ∧ (f b).run s = (.ok a, u) := by
  obtain ⟨b, t, hx, hf⟩ := run_bind_eq_ok h
  rw [run_ofExcept] at hx
  cases hx
  exact ⟨b, rfl, hf⟩

theorem run_tryCatch (x : Act σ β) (f : Fault → Act σ β) (s : σ) :
    (tryCatch x f).run s = match x.run s with
      | (.ok b, t) => (.ok b, t)
      | (.error e, t) => (f e).run t := by
  show ExceptT.tryCatch x f s = match x s with | (.ok b, t) => (.ok b, t) | (.error e, t) => f e t
  unfold ExceptT.tryCatch ExceptT.mk
  simp only [bind, StateT.bind]
  rcases x s with ⟨_ | _, t⟩
  · rfl
  · rfl

theorem run_onPart (get : σ → τ) (set : τ → σ → σ) (act : Act τ β) (s : σ) :
    (act.onPart get set).run s = ((act.run (get s)).1, set (act.run (get s)).2 s) := rfl

theorem run_map (g : β → γ) (x : Act σ β) (s : σ) :
    (g <$> x).run s = ((x.run s).1.map g, (x.run s).2) := by
  rw [map_eq_pure_bind, run_bind]
  rcases x.run s with ⟨_ | _, t⟩ <;> rfl

/-- A last step that fails puts its own failure in the place of the answer. -/
theorem run_ensuring_eq (last : Act σ Unit) (x : Act σ β) (s : σ) :
    (x.ensuring last).run s = match last.run (x.run s).2 with
      | (.ok _, t) => ((x.run s).1, t)
      | (.error e, t) => (.error e, t) := by
  have hfunction : ∀ f : σ → Except Fault β × σ, (ofFunction f).run s = f s := fun _ => rfl
  rw [ensuring, hfunction]
  rcases hlast : last.run (x.run s).2 with ⟨e | _, t⟩ <;> simp only [hlast]

/-- A last step that succeeds leaves the answer alone. -/
theorem run_ensuring {last : Act σ Unit} (x : Act σ β) (s : σ) {t : σ}
    (h : last.run (x.run s).2 = (.ok (), t)) : (x.ensuring last).run s = ((x.run s).1, t) := by
  rw [run_ensuring_eq, h]

theorem run_ite (p : Prop) [Decidable p] (x y : Act σ β) (s : σ) :
    (if p then x else y).run s = if p then x.run s else y.run s := by
  split <;> rfl

/-- The step leaves the property of the state alone, whether it succeeds or fails. -/
def Keeps (P : σ → Prop) (x : Act σ β) : Prop := ∀ s, P s → P (x.run s).2

namespace Keeps

variable {P : σ → Prop}

theorem pure (b : β) : Keeps P (Pure.pure b : Act σ β) := fun _ h => h

theorem throw (e : Fault) : Keeps P (MonadExcept.throw e : Act σ β) := fun _ h => h

theorem get : Keeps P (MonadState.get : Act σ σ) := fun _ h => h

theorem modify {f : σ → σ} (hf : ∀ s, P s → P (f s)) :
    Keeps P (modify f : Act σ PUnit) := hf

theorem ofExcept (x : Except Fault β) : Keeps P (Act.ofExcept x) := by
  intro s h
  rw [run_ofExcept]
  exact h

theorem bind {x : Act σ β} {f : β → Act σ γ} (hx : Keeps P x) (hf : ∀ b, Keeps P (f b)) :
    Keeps P (x >>= f) := by
  intro s h
  have hfirst := hx s h
  rw [run_bind]
  rcases hrun : x.run s with ⟨_ | b, t⟩
  · rw [hrun] at hfirst
    exact hfirst
  · rw [hrun] at hfirst
    exact hf b t hfirst

theorem tryCatch {x : Act σ β} {f : Fault → Act σ β} (hx : Keeps P x) (hf : ∀ e, Keeps P (f e)) :
    Keeps P (MonadExcept.tryCatch x f) := by
  intro s h
  have hfirst := hx s h
  rw [run_tryCatch]
  rcases hrun : x.run s with ⟨e | _, t⟩
  · rw [hrun] at hfirst
    exact hf e t hfirst
  · rw [hrun] at hfirst
    exact hfirst

theorem map (g : β → γ) {x : Act σ β} (hx : Keeps P x) : Keeps P (g <$> x) := by
  intro s h
  rw [run_map]
  exact hx s h

theorem ensuring {x : Act σ β} {last : Act σ Unit} (hx : Keeps P x) (hlast : Keeps P last) :
    Keeps P (x.ensuring last) := by
  intro s h
  have hkept := hlast _ (hx s h)
  rw [run_ensuring_eq]
  rcases hrun : last.run (x.run s).2 with ⟨_ | _, t⟩ <;> rw [hrun] at hkept
  · exact hkept
  · exact hkept

end Keeps

/-- The step keeps the property of the state, and its answers have the property `Q`. -/
def Yields (P : σ → Prop) (Q : β → Prop) (x : Act σ β) : Prop :=
  ∀ s, P s → P (x.run s).2 ∧ ∀ b, (x.run s).1 = .ok b → Q b

namespace Yields

variable {P : σ → Prop} {Q : β → Prop} {R : γ → Prop}

theorem pure {b : β} (hb : Q b) : Yields P Q (Pure.pure b : Act σ β) := by
  intro s h
  refine ⟨h, fun b' hb' => ?_⟩
  cases hb'
  exact hb

theorem ofExcept {x : Except Fault β} (hx : ∀ b, x = .ok b → Q b) :
    Yields P Q (Act.ofExcept x) := by
  intro s h
  rw [run_ofExcept]
  exact ⟨h, hx⟩

/-- The second part may rely on what the first one answers. -/
theorem bind {x : Act σ β} {f : β → Act σ γ} (hx : Yields P Q x) (hf : ∀ b, Q b → Yields P R (f b)) :
    Yields P R (x >>= f) := by
  intro s h
  obtain ⟨hkept, hanswer⟩ := hx s h
  rw [run_bind]
  rcases hrun : x.run s with ⟨e | b, t⟩ <;> rw [hrun] at hkept hanswer
  · exact ⟨hkept, fun _ hok => by cases hok⟩
  · exact hf b (hanswer b rfl) t hkept

theorem of_keeps {x : Act σ β} (hx : Keeps P x) : Yields P (fun _ => True) x :=
  fun s h => ⟨hx s h, fun _ _ => trivial⟩

theorem keeps {x : Act σ β} (hx : Yields P Q x) : Keeps P x := fun s h => (hx s h).1

end Yields

/-- From every state with the property `P`, the step leads to another one if it succeeds, and to one
with the property `Q` if it fails. -/
def Leads (P Q : σ → Prop) (x : Act σ β) : Prop :=
  ∀ s, P s → match x.run s with
    | (.ok _, t) => P t
    | (.error _, t) => Q t

namespace Leads

variable {P Q : σ → Prop}

theorem pure (b : β) : Leads P Q (Pure.pure b : Act σ β) := fun _ h => h

theorem get : Leads P Q (MonadState.get : Act σ σ) := fun _ h => h

theorem modify {f : σ → σ} (hf : ∀ s, P s → P (f s)) : Leads P Q (modify f : Act σ PUnit) := hf

theorem ofExcept (hPQ : ∀ s, P s → Q s) (x : Except Fault β) : Leads P Q (Act.ofExcept x) := by
  intro s h
  rw [run_ofExcept]
  cases x with
  | error e => exact hPQ s h
  | ok b => exact h

theorem bind {x : Act σ β} {f : β → Act σ γ} (hx : Leads P Q x) (hf : ∀ b, Leads P Q (f b)) :
    Leads P Q (x >>= f) := by
  intro s h
  have hfirst := hx s h
  rw [run_bind]
  rcases hrun : x.run s with ⟨e | b, t⟩ <;> rw [hrun] at hfirst
  · exact hfirst
  · exact hf b t hfirst

theorem keeps {x : Act σ β} (hx : Leads P P x) : Keeps P x := by
  intro s h
  have hlater := hx s h
  rcases hrun : x.run s with ⟨e | b, t⟩ <;> rw [hrun] at hlater <;> exact hlater

end Leads

/-! ## Going on -/

/-- Whoever skips malformed operators goes on after that answer. -/
def GoesOn (x : Except Fault β) : Prop := ∀ e, x = .error e → e.isMalformed = true

theorem goesOn_ok (b : β) : GoesOn (.ok b : Except Fault β) := fun _ h => by cases h

theorem goesOn_error_iff {e : Fault} :
    GoesOn (.error e : Except Fault β) ↔ e.isMalformed = true := by
  constructor
  · intro h
    exact h e rfl
  · rintro h _ ⟨⟩
    exact h

/-- A conversion of the answer does not matter. -/
theorem goesOn_map_iff (g : β → γ) (x : Except Fault β) : GoesOn (x.map g) ↔ GoesOn x := by
  cases x with
  | error e => rw [Except.map, goesOn_error_iff, goesOn_error_iff]
  | ok b => exact ⟨fun _ => goesOn_ok b, fun _ => goesOn_ok (g b)⟩

theorem goesOn_bind_iff (x : Except Fault β) (f : β → Except Fault γ) :
    GoesOn (x >>= f) ↔ GoesOn x ∧ ∀ b, x = .ok b → GoesOn (f b) := by
  cases x with
  | error e =>
    show GoesOn (.error e : Except Fault γ) ↔ _
    rw [goesOn_error_iff, goesOn_error_iff]
    exact ⟨fun h => ⟨h, fun _ hok => by cases hok⟩, fun h => h.1⟩
  | ok b =>
    constructor
    · intro h
      refine ⟨goesOn_ok b, ?_⟩
      rintro _ ⟨⟩
      exact h
    · rintro ⟨-, h⟩
      exact h b rfl

theorem goesOn_run_bind_iff (x : Act σ β) (f : β → Act σ γ) (s : σ) :
    GoesOn ((x >>= f).run s).1
      ↔ GoesOn (x.run s).1 ∧ ∀ b t, x.run s = (.ok b, t) → GoesOn ((f b).run t).1 := by
  rw [run_bind]
  rcases x.run s with ⟨e | b, t⟩
  · constructor
    · intro h
      exact ⟨goesOn_error_iff.mpr (goesOn_error_iff.mp h), fun _ _ hok => by cases hok⟩
    · rintro ⟨h, -⟩
      exact goesOn_error_iff.mpr (goesOn_error_iff.mp h)
  · constructor
    · intro h
      refine ⟨goesOn_ok b, ?_⟩
      rintro _ _ ⟨⟩
      exact h
    · rintro ⟨-, h⟩
      exact h b t rfl

/-- From every state with the property, the step goes on. -/
def Passes (P : σ → Prop) (x : Act σ β) : Prop := ∀ s, P s → GoesOn (x.run s).1

namespace Passes

variable {P : σ → Prop}

theorem pure (b : β) : Passes P (Pure.pure b : Act σ β) := fun _ _ => goesOn_ok b

theorem throw {e : Fault} (he : e.isMalformed = true) :
    Passes P (MonadExcept.throw e : Act σ β) := fun _ _ => goesOn_error_iff.mpr he

theorem get : Passes P (MonadState.get : Act σ σ) := fun s _ => goesOn_ok s

theorem modify (f : σ → σ) : Passes P (modify f : Act σ PUnit) := fun _ _ => goesOn_ok _

theorem bind {x : Act σ β} {f : β → Act σ γ} (hkeeps : Keeps P x) (hx : Passes P x)
    (hf : ∀ b, Passes P (f b)) : Passes P (x >>= f) := by
  intro s h
  -- The second part starts from where the first one ends, so the property has to have lasted.
  refine (goesOn_run_bind_iff x f s).mpr ⟨hx s h, fun b t hrun => hf b t ?_⟩
  have hkept := hkeeps s h
  rw [hrun] at hkept
  exact hkept

/-- Whoever recovers from every fault goes on. -/
theorem recover {x : Act σ β} {f : Fault → Act σ β} (hf : ∀ e, Passes (fun _ => True) (f e)) :
    Passes P (MonadExcept.tryCatch x f) := by
  intro s _
  rw [run_tryCatch]
  rcases x.run s with ⟨e | b, t⟩
  · exact hf e t trivial
  · exact goesOn_ok b

end Passes

/-- Where only the first part can fail for good, the first part decides. -/
theorem goesOn_run_bind_iff_of_passes {P : σ → Prop} {x : Act σ β} {f : β → Act σ γ}
    (hx : Keeps P x) (hf : ∀ b, Passes P (f b)) {s : σ} (hs : P s) :
    GoesOn ((x >>= f).run s).1 ↔ GoesOn (x.run s).1 := by
  rw [goesOn_run_bind_iff]
  constructor
  · rintro ⟨h, -⟩
    exact h
  · intro h
    refine ⟨h, fun b t hrun => hf b t ?_⟩
    have hkept := hx s hs
    rw [hrun] at hkept
    exact hkept

/-- Where only a conversion can fail for good, the conversion decides. -/
theorem goesOn_run_ofExcept_bind_iff {P : σ → Prop} {x : Except Fault β} {f : β → Act σ γ}
    (hf : ∀ b, Passes P (f b)) {s : σ} (hs : P s) :
    GoesOn ((ofExcept x >>= f).run s).1 ↔ GoesOn x := by
  rw [goesOn_run_bind_iff_of_passes (.ofExcept x) hf hs, run_ofExcept]

/-- Where every answer of a conversion leads to further conversions, all of them decide. -/
theorem goesOn_run_ofExcept_bind_congr {δ : Type} {x : Except Fault β} {f : β → Act σ γ}
    {g : β → Except Fault δ} {s : σ}
    (h : ∀ b, x = .ok b → (GoesOn ((f b).run s).1 ↔ GoesOn (g b))) :
    GoesOn ((ofExcept x >>= f).run s).1 ↔ GoesOn (x >>= g) := by
  rw [goesOn_run_bind_iff, goesOn_bind_iff, run_ofExcept]
  refine and_congr_right fun _ => ?_
  constructor
  · intro hf b hb
    exact (h b hb).mp (hf b s (by rw [hb]))
  · rintro hg b t hb
    cases hb
    exact (h b rfl).mpr (hg b rfl)

/-! ## Failing without a trace -/

/-- The step leaves the state as it is. -/
def Observes (x : Act σ β) : Prop := ∀ s, (x.run s).2 = s

namespace Observes

theorem pure (b : β) : Observes (Pure.pure b : Act σ β) := fun _ => rfl

theorem throw (e : Fault) : Observes (MonadExcept.throw e : Act σ β) := fun _ => rfl

theorem get : Observes (MonadState.get : Act σ σ) := fun _ => rfl

theorem ofExcept (x : Except Fault β) : Observes (Act.ofExcept x : Act σ β) := by
  intro s
  rw [run_ofExcept]

theorem bind {x : Act σ β} {f : β → Act σ γ} (hx : Observes x) (hf : ∀ b, Observes (f b)) :
    Observes (x >>= f) := by
  intro s
  have hfirst := hx s
  rw [run_bind]
  rcases hrun : x.run s with ⟨e | b, t⟩
  · rw [hrun] at hfirst
    exact hfirst
  · rw [hrun] at hfirst
    exact (hf b t).trans hfirst

end Observes

/-- The step never fails. -/
def Succeeds (x : Act σ β) : Prop := ∀ s, ∃ b t, x.run s = (.ok b, t)

namespace Succeeds

theorem pure (b : β) : Succeeds (Pure.pure b : Act σ β) := fun s => ⟨b, s, rfl⟩

theorem get : Succeeds (MonadState.get : Act σ σ) := fun s => ⟨s, s, rfl⟩

theorem modify (f : σ → σ) : Succeeds (modify f : Act σ PUnit) := fun s => ⟨⟨⟩, f s, rfl⟩

theorem bind {x : Act σ β} {f : β → Act σ γ} (hx : Succeeds x) (hf : ∀ b, Succeeds (f b)) :
    Succeeds (x >>= f) := by
  intro s
  obtain ⟨b, t, hfirst⟩ := hx s
  rw [run_bind_ok hfirst]
  exact hf b t

end Succeeds

/-- If the step fails, the state is what it was. -/
def FailsClean (x : Act σ β) : Prop := ∀ s e t, x.run s = (.error e, t) → t = s

namespace FailsClean

theorem of_observes {x : Act σ β} (hx : Observes x) : FailsClean x := by
  intro s e t hrun
  have hkept := hx s
  rw [hrun] at hkept
  exact hkept

theorem of_succeeds {x : Act σ β} (hx : Succeeds x) : FailsClean x := by
  intro s e t hrun
  obtain ⟨b, u, hok⟩ := hx s
  rw [hok] at hrun
  cases hrun

/-- Whoever has only looked so far has changed nothing yet. -/
theorem after {x : Act σ β} {f : β → Act σ γ} (hx : Observes x) (hf : ∀ b, FailsClean (f b)) :
    FailsClean (x >>= f) := by
  intro s e t hrun
  have hfirst := hx s
  rw [run_bind] at hrun
  rcases hstep : x.run s with ⟨e' | b, u⟩
  · rw [hstep] at hrun hfirst
    cases hrun
    exact hfirst
  · rw [hstep] at hrun hfirst
    exact (hf b u e t hrun).trans hfirst

/-- What never fails may follow. -/
theorem followed {x : Act σ β} {f : β → Act σ γ} (hx : FailsClean x) (hf : ∀ b, Succeeds (f b)) :
    FailsClean (x >>= f) := by
  intro s e t hrun
  rw [run_bind] at hrun
  rcases hstep : x.run s with ⟨e' | b, u⟩
  · rw [hstep] at hrun
    cases hrun
    exact hx s e t hstep
  · rw [hstep] at hrun
    obtain ⟨c, v, hok⟩ := hf b u
    have hfailed : (f b).run u = (.error e, t) := hrun
    rw [hok] at hfailed
    cases hfailed

end FailsClean

/-- Where the second part fails clean, a failure leaves what the first part has made of the state.
-/
theorem eq_of_run_bind_error {x : Act σ β} {f : β → Act σ γ} (hf : ∀ b, FailsClean (f b))
    {s t : σ} {e : Fault} (hrun : (x >>= f).run s = (.error e, t)) : t = (x.run s).2 := by
  rw [run_bind] at hrun
  rcases hstep : x.run s with ⟨e' | b, u⟩
  · rw [hstep] at hrun
    cases hrun
    rfl
  · rw [hstep] at hrun
    exact hf b u e t hrun

/-! ## Seen through a view -/

/-- From every state with the property, which it keeps, the step `y` is the step `x` to whoever sees
its states through the view. -/
def Mirrors (P : τ → Prop) (view : τ → σ) (y : Act τ β) (x : Act σ β) : Prop :=
  ∀ t, P t → P (y.run t).2 ∧ x.run (view t) = ((y.run t).1, view (y.run t).2)

namespace Mirrors

variable {P : τ → Prop} {view : τ → σ}

theorem pure (b : β) : Mirrors P view (Pure.pure b) (Pure.pure b) := fun _ h => ⟨h, rfl⟩

theorem throw (e : Fault) :
    Mirrors P view (MonadExcept.throw e : Act τ β) (MonadExcept.throw e) := fun _ h => ⟨h, rfl⟩

theorem ofExcept (x : Except Fault β) : Mirrors P view (Act.ofExcept x) (Act.ofExcept x) := by
  intro t h
  rw [run_ofExcept, run_ofExcept]
  exact ⟨h, rfl⟩

theorem modify {g : τ → τ} {f : σ → σ} (hkeeps : ∀ t, P t → P (g t))
    (hseen : ∀ t, P t → f (view t) = view (g t)) :
    Mirrors P view (modify g : Act τ PUnit) (modify f) :=
  fun t h => ⟨hkeeps t h, congrArg (Prod.mk _) (hseen t h)⟩

/-- Only the state after the first part has to have the property. -/
theorem bind_at {y : Act τ β} {x : Act σ β} {g : β → Act τ γ} {f : β → Act σ γ} {t : τ}
    (hseen : x.run (view t) = ((y.run t).1, view (y.run t).2)) (hafter : P (y.run t).2)
    (hg : ∀ b, Mirrors P view (g b) (f b)) :
    P ((y >>= g).run t).2
      ∧ (x >>= f).run (view t) = (((y >>= g).run t).1, view ((y >>= g).run t).2) := by
  rw [run_bind, run_bind, hseen]
  rcases hrun : y.run t with ⟨e | b, t'⟩
  · rw [hrun] at hafter
    exact ⟨hafter, rfl⟩
  · rw [hrun] at hafter
    exact hg b t' hafter

theorem bind {y : Act τ β} {x : Act σ β} {g : β → Act τ γ} {f : β → Act σ γ}
    (hy : Mirrors P view y x) (hg : ∀ b, Mirrors P view (g b) (f b)) :
    Mirrors P view (y >>= g) (x >>= f) := by
  intro t h
  obtain ⟨hkept, hseen⟩ := hy t h
  exact bind_at hseen hkept hg

/-- What is done with a state is what is done with its view. -/
theorem get_bind {g : τ → Act τ γ} {f : σ → Act σ γ}
    (hg : ∀ t, P t → Mirrors P view (g t) (f (view t))) :
    Mirrors P view (MonadState.get >>= g) (MonadState.get >>= f) := by
  intro t h
  rw [run_bind_ok (run_get t), run_bind_ok (run_get (view t))]
  exact hg t h t h

theorem tryCatch {y : Act τ β} {x : Act σ β} {g : Fault → Act τ β} {f : Fault → Act σ β}
    (hy : Mirrors P view y x) (hg : ∀ e, Mirrors P view (g e) (f e)) :
    Mirrors P view (MonadExcept.tryCatch y g) (MonadExcept.tryCatch x f) := by
  intro t h
  obtain ⟨hkept, hseen⟩ := hy t h
  rw [run_tryCatch, run_tryCatch, hseen]
  rcases hrun : y.run t with ⟨e | b, t'⟩
  · rw [hrun] at hkept
    exact hg e t' hkept
  · rw [hrun] at hkept
    exact ⟨hkept, rfl⟩

theorem ensuring {y : Act τ β} {x : Act σ β} {last : Act τ Unit} {last' : Act σ Unit}
    (hy : Mirrors P view y x) (hlast : Mirrors P view last last') :
    Mirrors P view (y.ensuring last) (x.ensuring last') := by
  intro t h
  obtain ⟨hkept, hseen⟩ := hy t h
  obtain ⟨hkept', hseen'⟩ := hlast (y.run t).2 hkept
  rw [run_ensuring_eq, run_ensuring_eq, hseen, hseen']
  rcases hrun : last.run (y.run t).2 with ⟨e | _, t'⟩ <;> rw [hrun] at hkept' <;>
    exact ⟨hkept', rfl⟩

/-- A step on a part of the state mirrors one on the same part of the view. -/
theorem onPart {σ' τ' : Type} {Q : τ' → Prop} {whole : τ' → σ'} {y : Act τ β} {x : Act σ β}
    (hy : Mirrors P view y x) {get : τ' → τ} {set : τ → τ' → τ'} {get' : σ' → σ} {set' : σ → σ' → σ'}
    (hpart : ∀ t, Q t → P (get t)) (hkeeps : ∀ t u, Q t → P u → Q (set u t))
    (hget : ∀ t, get' (whole t) = view (get t))
    (hset : ∀ t u, set' (view u) (whole t) = whole (set u t)) :
    Mirrors Q whole (y.onPart get set) (x.onPart get' set') := by
  intro t h
  obtain ⟨hkept, hseen⟩ := hy (get t) (hpart t h)
  refine ⟨hkeeps t _ h hkept, ?_⟩
  rw [run_onPart, run_onPart, hget, hseen]
  exact congrArg (Prod.mk _) (hset t _)

end Mirrors

/-! ## Carrying a change along -/

/-- A change of the state may come before the step or after it, from every state with the property,
which the step keeps: it does not look at what the change touches. -/
def Carries (P : σ → Prop) (f : σ → σ) (x : Act σ β) : Prop :=
  ∀ s, P s → P (x.run s).2 ∧ x.run (f s) = ((x.run s).1, f (x.run s).2)

namespace Carries

variable {P : σ → Prop} {f : σ → σ}

-- The changed state is a view of the state as it was, in which the step is itself.

theorem pure (b : β) : Carries P f (Pure.pure b : Act σ β) := Mirrors.pure b

theorem throw (e : Fault) : Carries P f (MonadExcept.throw e : Act σ β) := Mirrors.throw e

theorem ofExcept (x : Except Fault β) : Carries P f (Act.ofExcept x : Act σ β) :=
  Mirrors.ofExcept x

theorem modify {g : σ → σ} (hkeeps : ∀ s, P s → P (g s)) (hg : ∀ s, P s → g (f s) = f (g s)) :
    Carries P f (modify g : Act σ PUnit) := Mirrors.modify hkeeps hg

theorem bind {x : Act σ β} {g : β → Act σ γ} (hx : Carries P f x) (hg : ∀ b, Carries P f (g b)) :
    Carries P f (x >>= g) := Mirrors.bind hx hg

/-- What is done with the state looks at none of what the change touches. -/
theorem get_bind {g : σ → Act σ γ} (hsame : ∀ s, P s → g (f s) = g s)
    (hg : ∀ s, Carries P f (g s)) : Carries P f (MonadState.get >>= g) := by
  refine Mirrors.get_bind fun s h => ?_
  rw [hsame s h]
  exact hg s

theorem tryCatch {x : Act σ β} {g : Fault → Act σ β} (hx : Carries P f x)
    (hg : ∀ e, Carries P f (g e)) : Carries P f (MonadExcept.tryCatch x g) :=
  Mirrors.tryCatch hx hg

end Carries

/-! ## Two runs side by side -/

/-- From two states in the relation, the step answers the same and leads to two such states. -/
def Tracks (R : σ → σ → Prop) (x : Act σ β) : Prop :=
  ∀ s t, R s t → (x.run s).1 = (x.run t).1 ∧ R (x.run s).2 (x.run t).2

namespace Tracks

variable {R : σ → σ → Prop}

theorem pure (b : β) : Tracks R (Pure.pure b : Act σ β) := fun _ _ h => ⟨rfl, h⟩

theorem throw (e : Fault) : Tracks R (MonadExcept.throw e : Act σ β) := fun _ _ h => ⟨rfl, h⟩

theorem ofExcept (x : Except Fault β) : Tracks R (Act.ofExcept x : Act σ β) := by
  intro s t h
  rw [run_ofExcept, run_ofExcept]
  exact ⟨rfl, h⟩

theorem modify {g : σ → σ} (hg : ∀ s t, R s t → R (g s) (g t)) :
    Tracks R (modify g : Act σ PUnit) := fun s t h => ⟨rfl, hg s t h⟩

theorem bind {x : Act σ β} {g : β → Act σ γ} (hx : Tracks R x) (hg : ∀ b, Tracks R (g b)) :
    Tracks R (x >>= g) := by
  intro s t h
  obtain ⟨hanswer, hafter⟩ := hx s t h
  rw [run_bind, run_bind]
  generalize x.run s = r at hanswer hafter ⊢
  generalize x.run t = r' at hanswer hafter ⊢
  obtain ⟨answer, s'⟩ := r
  obtain ⟨answer', t'⟩ := r'
  cases hanswer
  cases answer with
  | error e => exact ⟨rfl, hafter⟩
  | ok b => exact hg b s' t' hafter

/-- What is done with the states is the same for both. -/
theorem get_bind {g : σ → Act σ γ} (hsame : ∀ s t, R s t → g s = g t) (hg : ∀ s, Tracks R (g s)) :
    Tracks R (MonadState.get >>= g) := by
  intro s t h
  rw [run_bind_ok (run_get s), run_bind_ok (run_get t), hsame s t h]
  exact hg t s t h

theorem tryCatch {x : Act σ β} {g : Fault → Act σ β} (hx : Tracks R x) (hg : ∀ e, Tracks R (g e)) :
    Tracks R (MonadExcept.tryCatch x g) := by
  intro s t h
  obtain ⟨hanswer, hafter⟩ := hx s t h
  rw [run_tryCatch, run_tryCatch]
  generalize x.run s = r at hanswer hafter ⊢
  generalize x.run t = r' at hanswer hafter ⊢
  obtain ⟨answer, s'⟩ := r
  obtain ⟨answer', t'⟩ := r'
  cases hanswer
  cases answer with
  | error e => exact hg e s' t' hafter
  | ok b => exact ⟨rfl, hafter⟩

theorem ensuring {x : Act σ β} {last : Act σ Unit} (hx : Tracks R x) (hlast : Tracks R last) :
    Tracks R (x.ensuring last) := by
  intro s t h
  obtain ⟨hanswer, hafter⟩ := hx s t h
  obtain ⟨hanswer', hafter'⟩ := hlast _ _ hafter
  rw [run_ensuring_eq, run_ensuring_eq, hanswer]
  generalize last.run (x.run s).2 = r at hanswer' hafter' ⊢
  generalize last.run (x.run t).2 = r' at hanswer' hafter' ⊢
  obtain ⟨answer, s'⟩ := r
  obtain ⟨answer', t'⟩ := r'
  cases hanswer'
  cases answer with
  | error e => exact ⟨rfl, hafter'⟩
  | ok => exact ⟨rfl, hafter'⟩

theorem onPart {σ' : Type} {S : σ' → σ' → Prop} {x : Act σ β} (hx : Tracks R x) {get : σ' → σ}
    {set : σ → σ' → σ'} (hpart : ∀ s t, S s t → R (get s) (get t))
    (hset : ∀ s t u v, S s t → R u v → S (set u s) (set v t)) : Tracks S (x.onPart get set) := by
  intro s t h
  obtain ⟨hanswer, hafter⟩ := hx _ _ (hpart s t h)
  rw [run_onPart, run_onPart]
  exact ⟨hanswer, hset s t _ _ h hafter⟩

/-- What the step keeps may be known of both states. -/
theorem and_keeps {P : σ → Prop} {x : Act σ β} (hx : Tracks R x) (hkeeps : Keeps P x) :
    Tracks (fun s t => R s t ∧ P s ∧ P t) x := by
  rintro s t ⟨h, hs, ht⟩
  obtain ⟨hanswer, hafter⟩ := hx s t h
  exact ⟨hanswer, hafter, hkeeps s hs, hkeeps t ht⟩

end Tracks

/-- Carries the step out on both states, and answers what it answers on the first. -/
def both (x : Act σ β) : Act (σ × σ) β :=
  ofFunction fun p => ((x.run p.1).1, (x.run p.1).2, (x.run p.2).2)

theorem run_both (x : Act σ β) (p : σ × σ) :
    x.both.run p = ((x.run p.1).1, (x.run p.1).2, (x.run p.2).2) := rfl

section

variable {R : σ → σ → Prop} {x : Act σ β}

theorem Tracks.mirrors_fst (h : Tracks R x) : Mirrors (fun p => R p.1 p.2) Prod.fst x.both x :=
  fun p hp => ⟨(h p.1 p.2 hp).2, rfl⟩

theorem Tracks.mirrors_snd (h : Tracks R x) : Mirrors (fun p => R p.1 p.2) Prod.snd x.both x := by
  intro p hp
  obtain ⟨hanswer, hafter⟩ := h p.1 p.2 hp
  refine ⟨hafter, ?_⟩
  rw [run_both, hanswer]

end

/-! ## Properties that pass from parts to the whole -/

/-- What is put together from steps with the property has it as well. -/
structure Composes (Q : {β : Type} → Act σ β → Prop) : Prop where
  pure : ∀ {β : Type} (b : β), Q (Pure.pure b : Act σ β)
  throw : ∀ {β : Type} (e : Fault), Q (MonadExcept.throw e : Act σ β)
  ofExcept : ∀ {β : Type} (x : Except Fault β), Q (Act.ofExcept x : Act σ β)
  bind : ∀ {β γ : Type} {x : Act σ β} {f : β → Act σ γ}, Q x → (∀ b, Q (f b)) → Q (x >>= f)
  tryCatch : ∀ {β : Type} {x : Act σ β} {f : Fault → Act σ β}, Q x → (∀ e, Q (f e)) →
    Q (MonadExcept.tryCatch x f)

theorem Composes.map {Q : {β : Type} → Act σ β → Prop} (h : Composes Q) (g : β → γ) {x : Act σ β}
    (hx : Q x) : Q (g <$> x) := by
  rw [map_eq_pure_bind]
  exact h.bind hx fun _ => h.pure _

theorem Keeps.composes (P : σ → Prop) : Composes fun {_} x => Keeps P x :=
  ⟨.pure, .throw, .ofExcept, .bind, .tryCatch⟩

theorem Carries.composes (P : σ → Prop) (f : σ → σ) : Composes fun {_} x => Carries P f x :=
  ⟨.pure, .throw, .ofExcept, .bind, .tryCatch⟩

theorem Tracks.composes (R : σ → σ → Prop) : Composes fun {_} x => Tracks R x :=
  ⟨.pure, .throw, .ofExcept, .bind, .tryCatch⟩

end Folio.Act
