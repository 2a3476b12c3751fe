import NativeImage.Proofs.Agreement

/-!
# How operations end

An operation on a state that only grows *ends* as stated if it succeeds with a result of which one
property holds, or fails with a failure of which another one holds. Either way the state has grown
and is still sound. An operation that ends for every property of failures, that is, also for the one
that no failure has, never fails.

## Main definitions

- `Ends` — how an operation ends in a state
- `Lasts` — properties of results that growth does not end

## Main statements

- `Ends.bind`, `Ends.mapM` — how sequences end
-/

namespace NativeImage

variable {State Failure α β : Type} [Preorder State]

/-- The operation succeeds with a result of which `V` holds, or fails with a failure of which `E`
holds. -/
inductive Ends (R : State → Prop) (E : State → Failure → Prop) (V : State → α → Prop)
    (x : EStateM Failure State α) (s : State) : Prop
  | ok {a : α} {t : State} (hx : x s = .ok a t) (hle : s ≤ t) (hr : R t) (hv : V t a)
  | error {e : Failure} {t : State} (hx : x s = .error e t) (hle : s ≤ t) (hr : R t) (he : E t e)

/-- What holds goes on holding when the state grows. -/
def Lasts (V : State → α → Prop) : Prop := ∀ {s t a}, V s a → s ≤ t → V t a

namespace Ends

variable {R : State → Prop} {E E' : State → Failure → Prop} {V V' : State → α → Prop}
  {W : State → β → Prop} {x : EStateM Failure State α} {f : α → EStateM Failure State β}
  {s : State}

theorem pure {a : α} (hr : R s) (hv : V s a) :
    Ends R E V (Pure.pure a : EStateM Failure State α) s :=
  .ok rfl le_rfl hr hv

theorem throw {e : Failure} (hr : R s) (he : E s e) :
    Ends R E V (MonadExcept.throw e : EStateM Failure State α) s :=
  .error rfl le_rfl hr he

/-- What comes second has to end only where the first has left off. -/
theorem bind (h : Ends R E V x s)
    (hf : ∀ {a t}, s ≤ t → R t → V t a → Ends R E W (f a) t) : Ends R E W (x >>= f) s := by
  cases h with
  | ok hx hle hr hv =>
    cases hf hle hr hv with
    | ok hx' hle' hr' hv' => exact .ok (bind_eq_ok.2 ⟨_, _, hx, hx'⟩) (hle.trans hle') hr' hv'
    | error hx' hle' hr' he =>
      exact .error (bind_eq_error.2 (.inr ⟨_, _, hx, hx'⟩)) (hle.trans hle') hr' he
  | error hx hle hr he => exact .error (bind_eq_error.2 (.inl hx)) hle hr he

/-- Only what the operation does in the state counts. -/
theorem congr {x' : EStateM Failure State α} (hx : x s = x' s) (h : Ends R E V x' s) :
    Ends R E V x s := by
  cases h with
  | ok hx' hle hr hv => exact .ok (hx.trans hx') hle hr hv
  | error hx' hle hr he => exact .error (hx.trans hx') hle hr he

/-- An answer that is read from the state does not change it. -/
theorem read {a : α} (hx : x s = .ok a s) (h : Ends R E W (f a) s) : Ends R E W (x >>= f) s :=
  .congr (bind_of_ok hx) h

theorem imp (h : Ends R E V x s) (himp : ∀ {t a}, s ≤ t → R t → V t a → V' t a) :
    Ends R E V' x s := by
  cases h with
  | ok hx hle hr hv => exact .ok hx hle hr (himp hle hr hv)
  | error hx hle hr he => exact .error hx hle hr he

theorem imp_error (h : Ends R E V x s) (himp : ∀ {t e}, s ≤ t → E t e → E' t e) :
    Ends R E' V x s := by
  cases h with
  | ok hx hle hr hv => exact .ok hx hle hr hv
  | error hx hle hr he => exact .error hx hle hr (himp hle he)

/-- What is known of every result is known here too. -/
theorem and {P : State → α → Prop} (h : Ends R E V x s)
    (hp : ∀ {a t}, x s = .ok a t → P t a) : Ends R E (fun t a => V t a ∧ P t a) x s := by
  cases h with
  | ok hx hle hr hv => exact .ok hx hle hr ⟨hv, hp hx⟩
  | error hx hle hr he => exact .error hx hle hr he

theorem map {f : α → β} (h : Ends R E V x s)
    (himp : ∀ {t a}, s ≤ t → R t → V t a → W t (f a)) : Ends R E W (f <$> x) s := by
  rw [← bind_pure_comp]
  exact h.bind fun hle hr hv => pure hr (himp hle hr hv)

/-- An operation that fails only with what refuses it, and succeeds only if nothing does, fails if
something refuses it and succeeds otherwise. -/
theorem refused_iff {refusal? : Option Failure}
    (h : Ends R (fun _ e => refusal? = some e) (fun _ _ => refusal? = none) x s) :
    ((∃ a t, x s = .ok a t) ↔ refusal? = none) ∧
      ∀ e, (∃ t, x s = .error e t) ↔ refusal? = some e := by
  cases h with
  | ok hx _ _ hnone => exact ⟨by simp [hx, hnone], fun e => by simp [hx, hnone]⟩
  | error hx _ _ hsome => exact ⟨by simp [hx, hsome], fun e => by simp [hx, hsome]⟩

/-- A list of operations ends if its members do, each wherever the ones before it have left off. -/
theorem mapM {P : State → α → Prop} {U : State → α → β → Prop} (hP : Lasts P)
    (hU : ∀ a, Lasts fun s => U s a)
    (hf : ∀ {a t}, s ≤ t → R t → P t a → Ends R E (fun u => U u a) (f a) t) {as : List α}
    (hr : R s) (h : ∀ a ∈ as, P s a) :
    Ends R E (fun t bs => List.Forall₂ (U t) as bs) (as.mapM f) s := by
  induction as generalizing s with
  | nil =>
    rw [List.mapM_nil]
    exact pure hr .nil
  | cons a as ih =>
    obtain ⟨ha, has⟩ := List.forall_mem_cons.1 h
    rw [List.mapM_cons]
    refine (hf le_rfl hr ha).bind fun hle hr hv => ?_
    refine (ih (fun hle' => hf (hle.trans hle')) hr fun b hb => hP (has b hb) hle).bind
      fun hle' hr hvs => ?_
    exact pure hr (.cons (hU a hv hle') hvs)

/-- So does one that keeps some of the results. -/
theorem filterMapM {f : α → EStateM Failure State (Option β)} {as : List α}
    (hf : ∀ {a t}, a ∈ as → s ≤ t → R t → Ends R E (fun _ _ => True) (f a) t) (hr : R s) :
    Ends R E (fun _ _ => True) (as.filterMapM f) s := by
  suffices h : ∀ found t, s ≤ t → R t →
      Ends R E (fun _ _ => True) (List.filterMapM.loop f as found) t from h [] s le_rfl hr
  induction as with
  | nil => exact fun found t _ hr => pure hr trivial
  | cons a as ih =>
    intro found t hle hr
    have hrest := ih fun hb => hf (List.mem_cons_of_mem a hb)
    refine (hf List.mem_cons_self hle hr).bind fun {b? u} hle' hr _ => ?_
    cases b? with
    | none => exact hrest found u (hle.trans hle') hr
    | some b => exact hrest (b :: found) u (hle.trans hle') hr

end Ends

end NativeImage
