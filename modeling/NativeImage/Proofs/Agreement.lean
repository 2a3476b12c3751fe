import NativeImage.Proofs.Settled

/-!
# Agreement of two runs

Two runs from related states *agree* if they fail alike or both succeed, with related results and
in related states that have only grown. What is related may depend on the states, as long as it
stays related when they grow.

## Main definitions

- `Agree` — agreement of two operations at a pair of states
- `Lasting` — relations between results that growth does not end

## Main statements

- `Agree.bind`, `Agree.mapM`, `Agree.filterMapM` — agreement of sequences
-/

namespace NativeImage

variable {State Failure α β γ δ : Type} [Preorder State]

/-- Both operations succeed with related results, or both fail in the same way. -/
inductive Agree (R : State → State → Prop) (V : State → State → α → β → Prop)
    (x : EStateM Failure State α) (y : EStateM Failure State β) (s t : State) : Prop
  | ok {a : α} {b : β} {s' t' : State} (hx : x s = .ok a s') (hy : y t = .ok b t')
      (hs : s ≤ s') (ht : t ≤ t') (hr : R s' t') (hv : V s' t' a b)
  | error {e : Failure} {s' t' : State} (hx : x s = .error e s') (hy : y t = .error e t')
      (hs : s ≤ s') (ht : t ≤ t') (hr : R s' t')

/-- Whatever is related stays related when the states grow. -/
def Lasting (V : State → State → α → β → Prop) : Prop :=
  ∀ {s t s' t' a b}, V s t a b → s ≤ s' → t ≤ t' → V s' t' a b

namespace Agree

variable {R : State → State → Prop} {V : State → State → α → β → Prop}
  {W : State → State → γ → δ → Prop} {x : EStateM Failure State α} {y : EStateM Failure State β}
  {f : α → EStateM Failure State γ} {g : β → EStateM Failure State δ} {s t : State}

theorem pure {a : α} {b : β} (hr : R s t) (hv : V s t a b) :
    Agree R V (Pure.pure a : EStateM Failure State α) (Pure.pure b) s t :=
  .ok rfl rfl le_rfl le_rfl hr hv

theorem throw {e : Failure} (hr : R s t) :
    Agree R V (MonadExcept.throw e : EStateM Failure State α) (MonadExcept.throw e) s t :=
  .error rfl rfl le_rfl le_rfl hr

/-- What comes second has to agree only where the first has left off. -/
theorem bind (h : Agree R V x y s t)
    (hf : ∀ {a b s' t'}, s ≤ s' → t ≤ t' → R s' t' → V s' t' a b →
      Agree R W (f a) (g b) s' t') : Agree R W (x >>= f) (y >>= g) s t := by
  cases h with
  | ok hx hy hs ht hr hv =>
    cases hf hs ht hr hv with
    | ok hx' hy' hs' ht' hr' hv' =>
      exact .ok (bind_eq_ok.2 ⟨_, _, hx, hx'⟩) (bind_eq_ok.2 ⟨_, _, hy, hy'⟩) (hs.trans hs')
        (ht.trans ht') hr' hv'
    | error hx' hy' hs' ht' hr' =>
      exact .error (bind_eq_error.2 (.inr ⟨_, _, hx, hx'⟩))
        (bind_eq_error.2 (.inr ⟨_, _, hy, hy'⟩)) (hs.trans hs') (ht.trans ht') hr'
  | error hx hy hs ht hr =>
    exact .error (bind_eq_error.2 (.inl hx)) (bind_eq_error.2 (.inl hy)) hs ht hr

/-- Answers that are read from the states do not change them. -/
theorem read {a : α} {b : β} (hx : x s = .ok a s) (hy : y t = .ok b t)
    (h : Agree R W (f a) (g b) s t) : Agree R W (x >>= f) (y >>= g) s t := by
  cases h with
  | ok hx' hy' hs ht hr hv =>
    exact .ok (bind_eq_ok.2 ⟨_, _, hx, hx'⟩) (bind_eq_ok.2 ⟨_, _, hy, hy'⟩) hs ht hr hv
  | error hx' hy' hs ht hr =>
    exact .error (bind_eq_error.2 (.inr ⟨_, _, hx, hx'⟩))
      (bind_eq_error.2 (.inr ⟨_, _, hy, hy'⟩)) hs ht hr

/-- Only what the operations do at the two states counts. -/
theorem congr {x' : EStateM Failure State α} {y' : EStateM Failure State β} (hx : x s = x' s)
    (hy : y t = y' t) (h : Agree R V x' y' s t) : Agree R V x y s t := by
  cases h with
  | ok hx' hy' hs ht hr hv => exact .ok (hx.trans hx') (hy.trans hy') hs ht hr hv
  | error hx' hy' hs ht hr => exact .error (hx.trans hx') (hy.trans hy') hs ht hr

theorem imp {V' : State → State → α → β → Prop} (h : Agree R V x y s t)
    (himp : ∀ {s' t' a b}, s ≤ s' → t ≤ t' → R s' t' → V s' t' a b → V' s' t' a b) :
    Agree R V' x y s t := by
  cases h with
  | ok hx hy hs ht hr hv => exact .ok hx hy hs ht hr (himp hs ht hr hv)
  | error hx hy hs ht hr => exact .error hx hy hs ht hr

/-- What is known of every result on the left is known here too. -/
theorem and_left {P : State → α → Prop} (h : Agree R V x y s t)
    (hp : ∀ {a s'}, x s = .ok a s' → P s' a) :
    Agree R (fun s t a b => V s t a b ∧ P s a) x y s t := by
  cases h with
  | ok hx hy hs ht hr hv => exact .ok hx hy hs ht hr ⟨hv, hp hx⟩
  | error hx hy hs ht hr => exact .error hx hy hs ht hr

theorem map {f : α → γ} {g : β → δ} (h : Agree R V x y s t)
    (himp : ∀ {s' t' a b}, s ≤ s' → t ≤ t' → R s' t' → V s' t' a b → W s' t' (f a) (g b)) :
    Agree R W (f <$> x) (g <$> y) s t := by
  rw [← bind_pure_comp, ← bind_pure_comp]
  exact h.bind fun hs ht hr hv => pure hr (himp hs ht hr hv)

/-- Lists of operations agree if their members do, each wherever the ones before it have left
off. -/
theorem mapM {P : State → State → α → β → Prop} {f : α → EStateM Failure State γ}
    {g : β → EStateM Failure State δ} (hP : Lasting P) (hW : Lasting W)
    (hf : ∀ {a b s' t'}, s ≤ s' → t ≤ t' → R s' t' → P s' t' a b → Agree R W (f a) (g b) s' t')
    {as : List α} {bs : List β} (hr : R s t) (h : List.Forall₂ (P s t) as bs) :
    Agree R (fun s t => List.Forall₂ (W s t)) (as.mapM f) (bs.mapM g) s t := by
  induction as generalizing bs s t with
  | nil =>
    cases h
    rw [List.mapM_nil, List.mapM_nil]
    exact pure hr .nil
  | cons a as ih =>
    cases h with
    | cons hab hrest =>
      rw [List.mapM_cons, List.mapM_cons]
      refine (hf le_rfl le_rfl hr hab).bind fun hs ht hr hv => ?_
      refine (ih (fun hs' ht' => hf (hs.trans hs') (ht.trans ht')) hr
        (hrest.imp fun _ _ hp => hP hp hs ht)).bind fun hs' ht' hr hvs => ?_
      exact pure hr (.cons (hW hv hs' ht') hvs)

/-- The same for lists of operations that may give nothing. -/
theorem filterMapM {P : State → State → α → β → Prop} {f : α → EStateM Failure State (Option γ)}
    {g : β → EStateM Failure State (Option δ)} (hP : Lasting P) (hW : Lasting W)
    (hf : ∀ {a b s' t'}, s ≤ s' → t ≤ t' → R s' t' → P s' t' a b →
      Agree R (fun s t => Option.Rel (W s t)) (f a) (g b) s' t')
    {as : List α} {bs : List β} (hr : R s t) (h : List.Forall₂ (P s t) as bs) :
    Agree R (fun s t => List.Forall₂ (W s t)) (as.filterMapM f) (bs.filterMapM g) s t := by
  suffices hloop : ∀ {found found'}, List.Forall₂ (W s t) found found' →
      Agree R (fun s t => List.Forall₂ (W s t)) (List.filterMapM.loop f as found)
        (List.filterMapM.loop g bs found') s t from hloop .nil
  induction as generalizing bs s t with
  | nil =>
    intro found found' hfound
    cases h
    exact pure hr (List.rel_reverse hfound)
  | cons a as ih =>
    intro found found' hfound
    cases h with
    | cons hab hrest =>
      refine (hf le_rfl le_rfl hr hab).bind fun {c? d? s' t'} hs ht hr hv => ?_
      have hfound := hfound.imp fun _ _ h => hW h hs ht
      have hrest := hrest.imp fun _ _ h => hP h hs ht
      have hrestM {found found'} (h : List.Forall₂ (W s' t') found found') :=
        ih (fun hs' ht' => hf (hs.trans hs') (ht.trans ht')) hr hrest h
      cases hv with
      | none => exact hrestM hfound
      | some hcd => exact hrestM (.cons hcd hfound)

end Agree

/-- The state after an operation, whether it succeeds or not. -/
def stateAfter (x : EStateM Failure State α) (s : State) : State :=
  match x s with
  | .ok _ s' => s'
  | .error _ s' => s'

theorem Settles.le_stateAfter {x : EStateM Failure State α} (hx : Settles x) (s : State) :
    s ≤ stateAfter x s := by
  rw [stateAfter]
  split
  · exact hx.grows ‹_›
  · exact hx.grows_error ‹_›

omit [Preorder State] in
/-- Whoever does not look at the result finds the same state. -/
theorem stateAfter_discard (x : EStateM Failure State α) (s : State) :
    stateAfter (discard x) s = stateAfter x s := by
  show stateAfter (Function.const α () <$> x) s = stateAfter x s
  rw [← bind_pure_comp, stateAfter, stateAfter, bind_apply]
  cases x s <;> rfl

theorem Agree.stateAfter {R : State → State → Prop} {V : State → State → α → β → Prop}
    {x : EStateM Failure State α} {y : EStateM Failure State β} {s t : State}
    (h : Agree R V x y s t) : R (stateAfter x s) (stateAfter y t) := by
  rw [NativeImage.stateAfter, NativeImage.stateAfter]
  cases h with
  | ok hx hy _ _ hr _ =>
    rw [hx, hy]
    exact hr
  | error hx hy _ _ hr =>
    rw [hx, hy]
    exact hr

/-- Options that are related are so by every weaker relation. -/
theorem optionRel_imp {R R' : α → β → Prop} {a? : Option α} {b? : Option β}
    (h : Option.Rel R a? b?) (himp : ∀ {a b}, R a b → R' a b) : Option.Rel R' a? b? := by
  cases h with
  | none => exact .none
  | some h => exact .some (himp h)

/-- Relations that do not look at the states last. -/
theorem lasting_const (V : α → β → Prop) : Lasting fun (_ _ : State) => V := fun h _ _ => h

theorem Lasting.forall₂ {V : State → State → α → β → Prop} (hV : Lasting V) :
    Lasting fun s t => List.Forall₂ (V s t) :=
  fun h hs ht => h.imp fun _ _ hv => hV hv hs ht

end NativeImage
