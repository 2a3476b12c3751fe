import Mathlib.Data.List.Forall2
import Mathlib.Order.Basic

/-!
# Settled answers

A program and an image only grow. An operation on such a state *settles* if it never takes anything
away and, once it has given a result, gives that result again in every later state without changing
the state any more. Finding an entry or appending it settles, and so does all that is built from
operations that settle.

## Main definitions

- `KeepsEntries` — a table that another one extends
- `Settles` — operations whose results last
- `ReadOnly` — operations that never change the state
-/

namespace NativeImage

/-! ## Tables that only grow -/

/-- Every entry of the old table is in the new one at the same position. -/
def KeepsEntries {α : Type} (old new : Array α) : Prop :=
  ∀ (i : Nat) (x : α), old[i]? = some x → new[i]? = some x

namespace KeepsEntries

variable {α : Type} {a b c : Array α}

theorem refl (a : Array α) : KeepsEntries a a := fun _ _ h => h

theorem trans (hab : KeepsEntries a b) (hbc : KeepsEntries b c) : KeepsEntries a c :=
  fun i x h => hbc i x (hab i x h)

theorem push (a : Array α) (x : α) : KeepsEntries a (a.push x) := by
  intro i y hy
  obtain ⟨hi, -⟩ := Array.getElem?_eq_some_iff.1 hy
  rw [Array.getElem?_push, if_neg (by omega), hy]

theorem size_le (h : KeepsEntries a b) : a.size ≤ b.size := by
  by_contra hlt
  have hlast : b.size < a.size := by omega
  obtain ⟨hb, -⟩ := Array.getElem?_eq_some_iff.1 (h _ _ (Array.getElem?_eq_getElem hlast))
  omega

/-- A search that succeeds goes on finding the same entry. -/
theorem findIdx? (h : KeepsEntries a b) {p : α → Bool} {i : Nat} (hi : a.findIdx? p = some i) :
    b.findIdx? p = some i := by
  obtain ⟨hlt, hp, hmin⟩ := Array.findIdx?_eq_some_iff_getElem.1 hi
  have key (j : Nat) (hj : j < a.size) : ∃ hb : j < b.size, b[j] = a[j] := by
    exact Array.getElem?_eq_some_iff.1 (h j a[j] (Array.getElem?_eq_getElem hj))
  refine Array.findIdx?_eq_some_iff_getElem.2 ⟨(key i hlt).1, ?_, fun j hj => ?_⟩
  · rw [(key i hlt).2]
    exact hp
  · rw [(key j (by omega)).2]
    exact hmin j hj

end KeepsEntries

/-- What is appended because nothing was found is found afterwards. -/
theorem findIdx?_push_self {α : Type} {a : Array α} {p : α → Bool} {x : α}
    (hnone : a.findIdx? p = none) (hx : p x = true) : (a.push x).findIdx? p = some a.size := by
  rw [Array.findIdx?_push, hnone]
  simp [hx]

/-! ## Operations that settle -/

section Settles

variable {State Failure α β : Type}

/-- What a sequence of two operations does. -/
theorem bind_apply (x : EStateM Failure State α) (f : α → EStateM Failure State β) (s : State) :
    (x >>= f) s = match x s with
      | .ok a t => f a t
      | .error e t => .error e t := by
  show EStateM.bind x f s = _
  rw [EStateM.bind]
  cases x s <;> rfl

theorem get_bind_apply (f : State → EStateM Failure State β) (s : State) :
    (get >>= f) s = f s s := by
  rw [bind_apply]
  rfl

theorem pure_eq_ok {a b : α} {s t : State} :
    (pure a : EStateM Failure State α) s = .ok b t ↔ a = b ∧ s = t := by
  show EStateM.Result.ok a s = .ok b t ↔ _
  rw [EStateM.Result.ok.injEq]

/-- A sequence has a result if both operations have one. -/
theorem bind_eq_ok {x : EStateM Failure State α} {f : α → EStateM Failure State β} {s t : State}
    {b : β} : (x >>= f) s = .ok b t ↔ ∃ a u, x s = .ok a u ∧ f a u = .ok b t := by
  rw [bind_apply]
  cases x s with
  | ok a u => simp [and_assoc]
  | error e u => simp

/-- A sequence goes on where its first operation has ended. -/
theorem bind_of_ok {x : EStateM Failure State α} {f : α → EStateM Failure State β} {s t : State}
    {a : α} (h : x s = .ok a t) : (x >>= f) s = f a t := by
  rw [bind_apply, h]

/-- A sequence fails if one of the operations does. -/
theorem bind_eq_error {x : EStateM Failure State α} {f : α → EStateM Failure State β}
    {s t : State} {e : Failure} : (x >>= f) s = .error e t ↔
      x s = .error e t ∨ ∃ a u, x s = .ok a u ∧ f a u = .error e t := by
  rw [bind_apply]
  cases x s with
  | ok a u => simp [and_assoc]
  | error e u => simp

variable [Preorder State]

/-- The state only grows, and a result is given again in every later state, which stays as it
is. -/
structure Settles (x : EStateM Failure State α) : Prop where
  grows : ∀ {s a t}, x s = .ok a t → s ≤ t
  grows_error : ∀ {s e t}, x s = .error e t → s ≤ t
  again : ∀ {s a t}, x s = .ok a t → ∀ {u}, t ≤ u → x u = .ok a u

namespace Settles

theorem pure (a : α) : Settles (Pure.pure a : EStateM Failure State α) where
  grows := by
    rintro s b t h
    cases h
    exact le_rfl
  grows_error := by
    rintro s e t h
    cases h
  again := by
    rintro s b t h u -
    cases h
    rfl

theorem throw (e : Failure) : Settles (MonadExcept.throw e : EStateM Failure State α) where
  grows := by
    rintro s a t h
    cases h
  grows_error := by
    rintro s e t h
    cases h
    exact le_rfl
  again := by
    rintro s a t h
    cases h

theorem bind {x : EStateM Failure State α} {f : α → EStateM Failure State β} (hx : Settles x)
    (hf : ∀ a, Settles (f a)) : Settles (x >>= f) where
  grows := by
    intro s b t h
    obtain ⟨a, u, ha, hb⟩ := bind_eq_ok.1 h
    exact (hx.grows ha).trans ((hf a).grows hb)
  grows_error := by
    intro s e t h
    rcases bind_eq_error.1 h with he | ⟨a, u, ha, he⟩
    · exact hx.grows_error he
    · exact (hx.grows ha).trans ((hf a).grows_error he)
  again := by
    intro s b t h v hv
    obtain ⟨a, u, ha, hb⟩ := bind_eq_ok.1 h
    have hxv := hx.again ha (((hf a).grows hb).trans hv)
    exact bind_eq_ok.2 ⟨a, v, hxv, (hf a).again hb hv⟩

/-- A sequence that leaves the state as it is consists of operations that do. -/
theorem bind_same {x : EStateM Failure State α} {f : α → EStateM Failure State β} (hx : Settles x)
    (hf : ∀ a, Settles (f a)) {s : State} {b : β} (h : (x >>= f) s = .ok b s) :
    ∃ a, x s = .ok a s ∧ f a s = .ok b s := by
  obtain ⟨a, t, ha, hb⟩ := bind_eq_ok.1 h
  have hsame := hx.again ha ((hf a).grows hb)
  cases ha.symm.trans hsame
  exact ⟨a, hsame, hb⟩

theorem map {x : EStateM Failure State α} (hx : Settles x) (f : α → β) : Settles (f <$> x) := by
  rw [← bind_pure_comp]
  exact hx.bind fun a => pure (f a)

theorem mapM {f : α → EStateM Failure State β} {list : List α}
    (hf : ∀ a ∈ list, Settles (f a)) : Settles (list.mapM f) := by
  induction list with
  | nil =>
    rw [List.mapM_nil]
    exact pure []
  | cons head rest ih =>
    rw [List.mapM_cons]
    refine (hf head List.mem_cons_self).bind fun b => ?_
    refine (ih fun a ha => hf a (List.mem_cons_of_mem _ ha)).bind fun bs => ?_
    exact pure (b :: bs)

theorem ite {c : Prop} [Decidable c] {x y : EStateM Failure State α} (hx : Settles x)
    (hy : Settles y) : Settles (if c then x else y) := by
  split
  · exact hx
  · exact hy

/-- An operation that gives the entry it finds, and otherwise adds one that it finds from then
on. -/
theorem of_find {x : EStateM Failure State α} (find : State → Option α)
    (hlast : ∀ {s t a}, s ≤ t → find s = some a → find t = some a)
    (hfound : ∀ {s a}, find s = some a → x s = .ok a s)
    (hnone : ∀ {s}, find s = none →
      (∃ a t, x s = .ok a t ∧ s ≤ t ∧ find t = some a) ∨ ∃ e, x s = .error e s) : Settles x where
  grows := by
    intro s a t h
    cases hf : find s with
    | some b =>
      rw [hfound hf] at h
      cases h
      exact le_rfl
    | none =>
      rcases hnone hf with ⟨b, u, hu, hle, -⟩ | ⟨e, he⟩
      · rw [hu] at h
        cases h
        exact hle
      · rw [he] at h
        cases h
  grows_error := by
    intro s e t h
    cases hf : find s with
    | some b =>
      rw [hfound hf] at h
      cases h
    | none =>
      rcases hnone hf with ⟨b, u, hu, -⟩ | ⟨e', he⟩
      · rw [hu] at h
        cases h
      · rw [he] at h
        cases h
        exact le_rfl
  again := by
    intro s a t h u hu
    refine hfound (hlast hu ?_)
    cases hf : find s with
    | some b =>
      rw [hfound hf] at h
      cases h
      exact hf
    | none =>
      rcases hnone hf with ⟨b, v, hv, -, hfind⟩ | ⟨e, he⟩
      · rw [hv] at h
        cases h
        exact hfind
      · rw [he] at h
        cases h

/-- In a state in which it once gave its result, an operation gives it again. -/
theorem repeat_self {x : EStateM Failure State α} (hx : Settles x) {s t : State} {a : α}
    (h : x s = .ok a t) : x t = .ok a t :=
  hx.again h le_rfl

end Settles

end Settles

/-! ## Operations that only read -/

section ReadOnly

variable {State Failure α β : Type}

/-- The state is the same afterwards, also when the operation fails. -/
structure ReadOnly (x : EStateM Failure State α) : Prop where
  same : ∀ {s a t}, x s = .ok a t → t = s
  same_error : ∀ {s e t}, x s = .error e t → t = s

namespace ReadOnly

theorem pure (a : α) : ReadOnly (Pure.pure a : EStateM Failure State α) where
  same := by
    rintro s b t h
    cases h
    rfl
  same_error := by
    rintro s e t h
    cases h

theorem throw (e : Failure) : ReadOnly (MonadExcept.throw e : EStateM Failure State α) where
  same := by
    rintro s a t h
    cases h
  same_error := by
    rintro s e t h
    cases h
    rfl

theorem bind {x : EStateM Failure State α} {f : α → EStateM Failure State β} (hx : ReadOnly x)
    (hf : ∀ a, ReadOnly (f a)) : ReadOnly (x >>= f) where
  same := by
    intro s b t h
    obtain ⟨a, u, ha, hb⟩ := bind_eq_ok.1 h
    exact ((hf a).same hb).trans (hx.same ha)
  same_error := by
    intro s e t h
    rcases bind_eq_error.1 h with he | ⟨a, u, ha, he⟩
    · exact hx.same_error he
    · exact ((hf a).same_error he).trans (hx.same ha)

theorem map {x : EStateM Failure State α} (hx : ReadOnly x) (f : α → β) : ReadOnly (f <$> x) := by
  rw [← bind_pure_comp]
  exact hx.bind fun a => pure (f a)

theorem mapM {f : α → EStateM Failure State β} (hf : ∀ a, ReadOnly (f a)) (list : List α) :
    ReadOnly (list.mapM f) := by
  induction list with
  | nil =>
    rw [List.mapM_nil]
    exact pure []
  | cons head rest ih =>
    rw [List.mapM_cons]
    exact (hf head).bind fun b => ih.bind fun bs => pure (b :: bs)

theorem filterMapM {f : α → EStateM Failure State (Option β)} (hf : ∀ a, ReadOnly (f a))
    (list : List α) : ReadOnly (list.filterMapM f) := by
  suffices h : ∀ found, ReadOnly (List.filterMapM.loop f list found) from h []
  induction list with
  | nil => exact fun found => pure found.reverse
  | cons head rest ih =>
    intro found
    refine (hf head).bind fun b? => ?_
    cases b? with
    | none => exact ih found
    | some b => exact ih (b :: found)

/-- What only reads settles if growth does not change what it reads. -/
theorem settles [Preorder State] {x : EStateM Failure State α} (hx : ReadOnly x)
    (hagain : ∀ {s a}, x s = .ok a s → ∀ {u}, s ≤ u → x u = .ok a u) : Settles x where
  grows h := (hx.same h).ge
  grows_error h := (hx.same_error h).ge
  again := by
    intro s a t h u hu
    obtain rfl := hx.same h
    exact hagain h hu

end ReadOnly

/-- Whatever stands in the second of two lists that agree has its counterpart in the first. -/
theorem exists_mem_of_forall₂ {R : α → β → Prop} {as : List α} {bs : List β}
    (h : List.Forall₂ R as bs) {b : β} (hb : b ∈ bs) : ∃ a ∈ as, R a b := by
  induction h with
  | nil => cases hb
  | cons hab hrest ih =>
    rcases List.mem_cons.1 hb with rfl | hb
    · exact ⟨_, List.mem_cons_self, hab⟩
    · obtain ⟨a, ha, hr⟩ := ih hb
      exact ⟨a, List.mem_cons_of_mem _ ha, hr⟩

/-- Lists whose entries are mapped alike are mapped alike. -/
theorem map_eq_of_forall₂ {γ : Type} {f : α → γ} {g : β → γ} {as : List α} {bs : List β}
    (h : List.Forall₂ (fun a b => f a = g b) as bs) : as.map f = bs.map g := by
  rw [← List.forall₂_eq_eq_eq, List.forall₂_map_left_iff, List.forall₂_map_right_iff]
  exact h

theorem forall₂_and_mem {R : α → β → Prop} {as : List α} {bs : List β}
    (h : List.Forall₂ R as bs) :
    List.Forall₂ (fun a b => (a ∈ as ∧ b ∈ bs) ∧ R a b) as bs := by
  obtain ⟨hlen, hzip⟩ := List.forall₂_iff_zip.1 h
  exact List.forall₂_iff_zip.2 ⟨hlen, fun hm => ⟨List.of_mem_zip hm, hzip hm⟩⟩

theorem length_of_mapM {f : α → EStateM Failure State β} {list : List α} {s t : State}
    {results : List β} (h : list.mapM f s = .ok results t) : results.length = list.length := by
  induction list generalizing s results with
  | nil =>
    rw [List.mapM_nil] at h
    obtain ⟨rfl, -⟩ := pure_eq_ok.1 h
    rfl
  | cons head rest ih =>
    rw [List.mapM_cons] at h
    obtain ⟨b, u, -, hrest⟩ := bind_eq_ok.1 h
    obtain ⟨bs, v, hbs, hlast⟩ := bind_eq_ok.1 hrest
    obtain ⟨rfl, rfl⟩ := pure_eq_ok.1 hlast
    rw [List.length_cons, ih hbs, List.length_cons]

/-- A list of operations none of which changes the state `s`. -/
theorem mapM_same {f : α → EStateM Failure State β} {list : List α} {s t : State}
    {results : List β} (hf : ∀ a ∈ list, ∀ b u, f a s = .ok b u → u = s)
    (h : list.mapM f s = .ok results t) :
    t = s ∧ List.Forall₂ (fun a b => f a s = .ok b s) list results := by
  induction list generalizing results with
  | nil =>
    rw [List.mapM_nil] at h
    cases h
    exact ⟨rfl, .nil⟩
  | cons head rest ih =>
    rw [List.mapM_cons] at h
    obtain ⟨b, u, hb, hrest⟩ := bind_eq_ok.1 h
    have hu := hf head List.mem_cons_self b u hb
    subst hu
    obtain ⟨bs, v, hbs, hpure⟩ := bind_eq_ok.1 hrest
    obtain ⟨rfl, rfl⟩ := pure_eq_ok.1 hpure
    obtain ⟨rfl, hall⟩ := ih (fun a ha => hf a (List.mem_cons_of_mem _ ha)) hbs
    exact ⟨rfl, .cons hb hall⟩

/-- A list of operations that give back what they are applied to. -/
theorem mapM_eq_self {f : α → EStateM Failure State α} {s : State}
    {list : List α} (h : ∀ a ∈ list, f a s = .ok a s) : list.mapM f s = .ok list s := by
  induction list with
  | nil => rfl
  | cons a list ih =>
    obtain ⟨ha, hlist⟩ := List.forall_mem_cons.1 h
    rw [List.mapM_cons, bind_of_ok ha, bind_of_ok (ih hlist)]
    rfl

end ReadOnly

end NativeImage
