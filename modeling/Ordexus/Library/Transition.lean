import Mathlib.Data.List.Basic

/-!
# Runs of a labelled transition system

A system is a partial step function: an event is either refused in a state or
takes it to the next one. Reachability carries a condition on the steps taken,
so that the same induction serves unrestricted runs and runs whose steps all
meet a side condition.
-/

namespace Transition

variable {σ ε : Type} {step : σ → ε → Option σ} {ok : σ → ε → Prop} {s₀ s s' : σ}

/-- States reached from `s₀` by steps that all meet `ok` in the state in which
they are taken. -/
inductive Reaches (step : σ → ε → Option σ) (ok : σ → ε → Prop) (s₀ : σ) : σ → Prop
  | start : Reaches step ok s₀ s₀
  | next {s s' : σ} {e : ε} (hreach : Reaches step ok s₀ s) (hok : ok s e)
      (hstep : step s e = some s') : Reaches step ok s₀ s'

/-- The side condition of an unrestricted run. -/
def anyStep : σ → ε → Prop := fun _ _ => True

/-- A property of the start that every permitted step keeps holds of every
reached state. -/
theorem Reaches.invariant {inv : σ → Prop} (hreach : Reaches step ok s₀ s) (hstart : inv s₀)
    (hkeep : ∀ s e s', inv s → ok s e → step s e = some s' → inv s') : inv s := by
  induction hreach with
  | start => exact hstart
  | next _ hok hstep ih => exact hkeep _ _ _ ih hok hstep

theorem Reaches.trans (hfirst : Reaches step ok s₀ s) (hsecond : Reaches step ok s s') :
    Reaches step ok s₀ s' := by
  induction hsecond with
  | start => exact hfirst
  | next _ hok hstep ih => exact .next ih hok hstep

/-- Execute a list of events; the run stops at the first refused event. -/
def run (step : σ → ε → Option σ) : σ → List ε → Option σ
  | s, [] => some s
  | s, e :: es => (step s e).bind fun next => run step next es

variable {es : List ε} {test : σ → Bool}

/-- A run in which every step passes a test that entails `ok`. -/
theorem Reaches.of_checked_run (check : σ → ε → Bool) (hcheck : ∀ s e, check s e = true → ok s e)
    (hrun : run (fun s e => if check s e then step s e else none) s es = some s') :
    Reaches step ok s s' := by
  induction es generalizing s with
  | nil =>
    obtain rfl : s = s' := by simpa [run] using hrun
    exact .start
  | cons e es ih =>
    obtain ⟨next, hstep, hrest⟩ := Option.bind_eq_some_iff.mp hrun
    obtain ⟨hpass, hstep⟩ : check s e = true ∧ step s e = some next := by simpa using hstep
    have hfirst : Reaches step ok s next := .next .start (hcheck s e hpass) hstep
    exact hfirst.trans (ih hrest)

/-- A run without side condition is reached by executing its events. -/
theorem Reaches.of_run_any (hrun : run step s es = some s') : Reaches step anyStep s s' :=
  .of_checked_run (fun _ _ => true) (fun _ _ _ => trivial) (by simpa using hrun)

/-- Where a run ends is reached, and a test passed there holds of it. -/
theorem exists_of_checked_run (check : σ → ε → Bool) (hcheck : ∀ s e, check s e = true → ok s e)
    (hrun : (run (fun s e => if check s e then step s e else none) s es).any test = true) :
    ∃ s', Reaches step ok s s' ∧ test s' = true := by
  cases hend : run (fun s e => if check s e then step s e else none) s es with
  | none => simp [hend] at hrun
  | some s' => exact ⟨s', .of_checked_run check hcheck hend, by simpa [hend] using hrun⟩

/-- The same where passing the test is the side condition. -/
theorem exists_of_guarded_run {check : σ → ε → Bool}
    (hrun : (run (fun s e => if check s e then step s e else none) s es).any test = true) :
    ∃ s', Reaches step (fun s e => check s e = true) s s' ∧ test s' = true :=
  exists_of_checked_run check (fun _ _ hpass => hpass) hrun

theorem exists_of_run (hrun : (run step s es).any test = true) :
    ∃ s', Reaches step anyStep s s' ∧ test s' = true :=
  exists_of_checked_run (fun _ _ => true) (fun _ _ _ => trivial) (by simpa using hrun)

/-! ### Using things up

Tokens that can be used once: a step uses tokens that were unused before it, and what is used
stays used. Over a whole run no token is used twice. -/

/-- From `before` to `after` exactly the tokens of the list were used, each of them once. -/
structure SpendsOnce {τ : Type} (used : σ → τ → Prop) (before after : σ) (tokens : List τ) :
    Prop where
  nodup : tokens.Nodup
  fresh : ∀ token ∈ tokens, ¬used before token
  spent : ∀ token ∈ tokens, used after token
  keeps : ∀ token, used before token → used after token

theorem SpendsOnce.refl {τ : Type} (used : σ → τ → Prop) (s : σ) : SpendsOnce used s s [] :=
  ⟨.nil, by simp, by simp, fun _ h => h⟩

theorem SpendsOnce.trans {τ : Type} {used : σ → τ → Prop} {first second third : σ}
    {tokens more : List τ} (hfirst : SpendsOnce used first second tokens)
    (hsecond : SpendsOnce used second third more) :
    SpendsOnce used first third (tokens ++ more) := by
  refine ⟨List.nodup_append.mpr ⟨hfirst.nodup, hsecond.nodup, ?_⟩, ?_, ?_,
    fun token h => hsecond.keeps token (hfirst.keeps token h)⟩
  · rintro token htoken _ hmore rfl
    exact hsecond.fresh token hmore (hfirst.spent token htoken)
  · intro token hmem hused
    rcases List.mem_append.mp hmem with htoken | hmore
    · exact hfirst.fresh token htoken hused
    · exact hsecond.fresh token hmore (hfirst.keeps token hused)
  · intro token hmem
    rcases List.mem_append.mp hmem with htoken | hmore
    · exact hsecond.keeps token (hfirst.spent token htoken)
    · exact hsecond.spent token hmore

end Transition
