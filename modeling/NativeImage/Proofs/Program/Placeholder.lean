import NativeImage.Proofs.Program.MethodSharing

/-!
# Where the placeholder occurs

Whether code is shared is asked of a canonical form by looking for the placeholder in it, in every
argument and however deep. The canonical form itself is made by another recursion, which goes into
value types only and puts the placeholder in place of every other argument. On canonical forms the
two agree: the placeholder occurs exactly if a reference argument was replaced on the way, and a
form that differs from the type or method it was made for always has it.

## Main definitions

- `Program.ErasesReference` — a reference argument is met by going into value arguments only
- `Program.ErasedArgument` — an argument that is such a reference, or leads to one

## Main statements

- `Program.Shares.erasesReference_of_ne` — types that share code without being equal erase references
- `Program.Normal.mentionsCanon` — what the question is answered for types in normal form
- `Program.NormalMethod.isSharedMethod` — and for method instances in normal form
- `Program.Reachable.canonical_mentionsCanon`
-/

namespace NativeImage

namespace Program

variable {p q : Program}

/-! ## Erased references -/

/-- Among the arguments of the type, of its value arguments, of their value arguments and so on is a
reference type. -/
inductive ErasesReference (p : Program) : TypeId → Prop
  | argument {id definition arg : TypeId} {args : List TypeId}
    (h : p.TypeInstance id definition args) (ha : arg ∈ args) (hreference : p.IsReference arg) :
    ErasesReference p id
  | nested {id definition arg : TypeId} {args : List TypeId}
    (h : p.TypeInstance id definition args) (ha : arg ∈ args) (hvalue : p.IsValue arg)
    (harg : ErasesReference p arg) : ErasesReference p id

/-- What shared code does not tell about an argument: which reference type it is, or, in a value
type, which reference types went into it. -/
def ErasedArgument (p : Program) (arg : TypeId) : Prop :=
  p.IsReference arg ∨ p.IsValue arg ∧ p.ErasesReference arg

/-- An instance erases what its arguments erase. -/
theorem TypeInstance.erasesReference_iff {id definition : TypeId} {args : List TypeId}
    (h : p.TypeInstance id definition args) :
    p.ErasesReference id ↔ ∃ arg ∈ args, p.ErasedArgument arg := by
  constructor
  · intro herases
    cases herases with
    | argument h' ha hreference =>
      obtain ⟨-, rfl⟩ := h.unique h'
      exact ⟨_, ha, .inl hreference⟩
    | nested h' ha hvalue harg =>
      obtain ⟨-, rfl⟩ := h.unique h'
      exact ⟨_, ha, .inr ⟨hvalue, harg⟩⟩
  · rintro ⟨arg, ha, hreference | ⟨hvalue, harg⟩⟩
    · exact .argument h ha hreference
    · exact .nested h ha hvalue harg

theorem not_erasesReference_of_declared {id : TypeId} {desc : TypeDesc}
    (hd : p.typeDesc id = .ok desc) (ho : desc.origin = .declared) : ¬ p.ErasesReference id := by
  have hnone {definition : TypeId} {args : List TypeId} :
      ¬ p.TypeInstance id definition args := by
    rintro ⟨found, hf, ho'⟩
    cases hd.symm.trans hf
    cases ho.symm.trans ho'
  intro h
  cases h with
  | argument h => exact hnone h
  | nested h => exact hnone h

theorem ErasesReference.mono {id : TypeId} (h : p.ErasesReference id) (hpq : p ≤ q) :
    q.ErasesReference id := by
  induction h with
  | argument h ha hreference => exact .argument (h.mono hpq) ha (hreference.mono hpq)
  | nested h ha hvalue _ ih => exact .nested (h.mono hpq) ha (hvalue.mono hpq) ih

/-- What a type erases does not depend on what was added to the program. -/
theorem ErasesReference.of_le (hp : p.WellFormed) (hpq : p ≤ q) {id : TypeId}
    (h : q.ErasesReference id) (hid : p.HasType id) : p.ErasesReference id := by
  induction h with
  | argument h ha hreference =>
    have h := h.of_le hpq hid
    exact .argument h ha (hreference.of_le hpq (h.hasType_args hp _ ha))
  | nested h ha hvalue _ ih =>
    have h := h.of_le hpq hid
    have harg := h.hasType_args hp _ ha
    exact .nested h ha (hvalue.of_le hpq harg) (ih harg)

mutual

/-- Types that share code erase references alike. -/
theorem Shares.erasesReference {x y : TypeId} : p.Shares x y → p.ErasesReference x →
    p.ErasesReference y
  | .same _, h => h
  | .derived hx hy hargs, h =>
    hy.erasesReference_iff.2 (hargs.exists_erased (hx.erasesReference_iff.1 h))

theorem ArgumentsShare.exists_erased {xs ys : List TypeId} : p.ArgumentsShare xs ys →
    (∃ x ∈ xs, p.ErasedArgument x) → ∃ y ∈ ys, p.ErasedArgument y
  | .nil, h => h
  | .reference _ hy _, _ => ⟨_, List.mem_cons_self, .inl hy⟩
  | .value hx hy hxy h, hxs => by
    rw [List.exists_mem_cons_iff] at hxs ⊢
    refine hxs.imp (fun herased => ?_) h.exists_erased
    rcases herased with hreference | ⟨-, harg⟩
    · exact absurd hreference hx.not_isReference
    · exact .inr ⟨hy, hxy.erasesReference harg⟩

end

mutual

/-- Types that share code without being equal differ in references only. -/
theorem Shares.erasesReference_of_ne (hp : p.WellFormed) {x y : TypeId} : p.Shares x y → x ≠ y →
    p.ErasesReference x
  | .same _, hne => absurd rfl hne
  | .derived hx hy hargs, hne => by
    refine hx.erasesReference_iff.2 (hargs.exists_erased_of_ne hp ?_)
    rintro rfl
    exact hne (hp.eq_of_instance hx hy)

theorem ArgumentsShare.exists_erased_of_ne (hp : p.WellFormed) {xs ys : List TypeId} :
    p.ArgumentsShare xs ys → xs ≠ ys → ∃ x ∈ xs, p.ErasedArgument x
  | .nil, hne => absurd rfl hne
  | .reference hx _ _, _ => ⟨_, List.mem_cons_self, .inl hx⟩
  | .value (x := x) (y := y) hx _ hxy h, hne => by
    rw [List.exists_mem_cons_iff]
    by_cases hhead : x = y
    · subst hhead
      exact .inr (h.exists_erased_of_ne hp fun htail => hne (htail ▸ rfl))
    · exact .inl (.inr ⟨hx, hxy.erasesReference_of_ne hp hhead⟩)

end

/-! ## The question for the placeholder -/

/-- The question has an answer, which says whether the property holds. -/
def Decides {ε : Type} (question : Except ε Bool) (P : Prop) : Prop :=
  ∃ answer, question = .ok answer ∧ (answer = true ↔ P)

theorem Decides.congr {ε : Type} {question : Except ε Bool} {P Q : Prop} (h : Decides question P)
    (hiff : P ↔ Q) : Decides question Q := by
  obtain ⟨answer, hx, hanswer⟩ := h
  exact ⟨answer, hx, hanswer.trans hiff⟩

theorem Decides.eq_true {ε : Type} {question : Except ε Bool} {P : Prop} (h : Decides question P)
    (hP : P) : question = .ok true := by
  obtain ⟨answer, hx, hanswer⟩ := h
  rw [hx, hanswer.2 hP]

/-- A second question is asked only if the first is answered in the negative. -/
theorem Decides.or {ε : Type} {x y : Except ε Bool} {P Q : Prop} (hx : Decides x P)
    (hy : Decides y Q) :
    Decides (x >>= fun answer => if answer then pure true else y) (P ∨ Q) := by
  obtain ⟨answer, rfl, hP⟩ := hx
  obtain ⟨other, rfl, hQ⟩ := hy
  rw [← hP, ← hQ]
  cases answer with
  | true => exact ⟨true, rfl, by simp⟩
  | false => exact ⟨other, rfl, by simp⟩

/-- A search that can ask every member decides whether one of them has the property. -/
theorem decides_anyM {α ε : Type} {f : α → Except ε Bool} {P : α → Prop} {list : List α}
    (h : ∀ a ∈ list, Decides (f a) (P a)) : Decides (list.anyM f) (∃ a ∈ list, P a) := by
  induction list with
  | nil => exact ⟨false, rfl, by simp⟩
  | cons a list ih =>
    obtain ⟨ha, hlist⟩ := List.forall_mem_cons.1 h
    obtain ⟨answer, hf, hP⟩ := ha
    rw [List.anyM, hf, List.exists_mem_cons_iff, ← hP]
    cases answer with
    | true => exact ⟨true, rfl, by simp⟩
    | false => exact (ih hlist).congr (by simp)

theorem mentionsCanon_of_declared {id : TypeId} {desc : TypeDesc} (hd : p.typeDesc id = .ok desc)
    (ho : desc.origin = .declared) : Decides (p.mentionsCanon id) (id = .canon) := by
  rw [mentionsCanon, hd]
  simp only [bind, Except.bind, TypeDesc.args, ho]
  by_cases hcanon : id = .canon
  · rw [if_pos hcanon]
    exact ⟨true, rfl, by simp [hcanon]⟩
  · rw [if_neg hcanon]
    exact ⟨false, rfl, by simp [hcanon]⟩

theorem WellFormed.ne_canon_of_instance (hp : p.WellFormed) {id definition : TypeId}
    {args : List TypeId} (h : p.TypeInstance id definition args) : id ≠ .canon := by
  rintro rfl
  obtain ⟨desc, hd, ho⟩ := h
  cases (typeDesc_stable TypeId.canon initial _ rfl _ hp.initial_le).symm.trans hd
  cases ho

/-- The placeholder is in an instance if it is in an argument. -/
theorem WellFormed.mentionsCanon_of_instance (hp : p.WellFormed) {id definition : TypeId}
    {args : List TypeId} (h : p.TypeInstance id definition args) {P : TypeId → Prop}
    (hargs : ∀ arg ∈ args, Decides (p.mentionsCanon arg) (P arg)) :
    Decides (p.mentionsCanon id) (∃ arg ∈ args, P arg) := by
  have hne := hp.ne_canon_of_instance h
  obtain ⟨desc, hd, ho⟩ := h
  obtain ⟨-, -, -, hlt, -⟩ := (hp.type_ok hd).derived ho
  rw [mentionsCanon, hd]
  simp only [bind, Except.bind, TypeDesc.args, ho, if_neg hne]
  refine decides_anyM fun arg ha => ?_
  rw [dif_pos (hlt arg ha)]
  exact hargs arg ha

theorem NormalArgument.erased_iff (hp : p.WellFormed) {arg : TypeId} (h : p.NormalArgument arg) :
    p.ErasedArgument arg ↔ arg = .canon ∨ p.ErasesReference arg := by
  constructor
  · rintro (hreference | ⟨-, harg⟩)
    · exact .inl (h.eq_canon hreference)
    · exact .inr harg
  · rintro (rfl | harg)
    · exact .inl hp.isReference_canon
    · rcases h.kind with rfl | hvalue
      · exact .inl hp.isReference_canon
      · exact .inr ⟨hvalue, harg⟩

/-- In a normal form the placeholder stands where a reference was erased, and nowhere else. -/
theorem Normal.mentionsCanon (hp : p.WellFormed) {id : TypeId} (h : p.Normal id) :
    Decides (p.mentionsCanon id) (id = .canon ∨ p.ErasesReference id) := by
  induction h with
  | declared hd ho =>
    refine (mentionsCanon_of_declared hd ho).congr ?_
    rw [or_iff_left (not_erasesReference_of_declared hd ho)]
  | derived hinst hkinds hargs ih =>
    refine (hp.mentionsCanon_of_instance hinst ih).congr ?_
    rw [or_iff_right (hp.ne_canon_of_instance hinst), hinst.erasesReference_iff]
    exact exists_congr fun arg => and_congr_right fun ha =>
      (NormalArgument.erased_iff hp ⟨hkinds arg ha, hargs arg ha⟩).symm

theorem NormalMethod.hasMethod {id : MethodId} (h : p.NormalMethod id) : p.HasMethod id := by
  cases h with
  | definition hd => exact hasMethod_of_desc hd
  | derived hinst => exact hinst.hasMethod

/-- An instance of a method is shared code if its owner or its arguments have the placeholder. -/
theorem NormalMethod.isSharedMethod (hp : p.WellFormed) {id definition : MethodId}
    {owner : TypeId} {args : List TypeId} (h : p.NormalMethod id)
    (hinst : p.DerivedMethod id definition owner args) :
    Decides (p.isSharedMethod id)
      ((owner = .canon ∨ p.ErasesReference owner) ∨ ∃ arg ∈ args, p.ErasedArgument arg) := by
  obtain ⟨hnormal, hargs⟩ := h.parts hinst
  obtain ⟨desc, hd, ho, rfl⟩ := hinst
  rw [Program.isSharedMethod, hd]
  simp only [bind, Except.bind, MethodDesc.args, ho]
  refine (hnormal.mentionsCanon hp).or (decides_anyM fun arg ha => ?_)
  exact ((hargs arg ha).normal.mentionsCanon hp).congr ((hargs arg ha).erased_iff hp).symm

/-! ## Canonical forms -/

theorem WellFormed.typeDefinition_canon (hp : p.WellFormed) :
    p.typeDefinition .canon = .ok .canon :=
  typeDefinition_stable TypeId.canon initial _ rfl _ hp.initial_le

/-- The placeholder shares code with itself only. -/
theorem Shares.eq_canon_iff (hp : p.WellFormed) {x y : TypeId} (h : p.Shares x y) :
    x = .canon ↔ y = .canon := by
  constructor
  · rintro rfl
    exact (h.eq_of_definition hp hp.typeDefinition_canon).symm
  · rintro rfl
    exact (h.symm.eq_of_definition hp hp.typeDefinition_canon).symm

/-- A canonical type has the placeholder exactly if the type is the placeholder or erases a
reference. -/
theorem TypeForm.mentionsCanon (hp : p.WellFormed) {id form : TypeId} (h : p.TypeForm id form) :
    Decides (p.mentionsCanon form) (id = .canon ∨ p.ErasesReference id) :=
  (h.normal.mentionsCanon hp).congr <| or_congr (h.shares.eq_canon_iff hp).symm
    ⟨h.shares.symm.erasesReference, h.shares.erasesReference⟩

/-- A canonical method that is not the method it was made for is shared code. -/
theorem MethodForm.isSharedMethod (hp : p.WellFormed) {id form : MethodId}
    (h : p.MethodForm id form) (hne : form ≠ id) : p.isSharedMethod form = .ok true := by
  have hnormal := h.normal
  cases h.shares with
  | same => exact absurd rfl hne
  | @derived _ _ owner owner' args args' hx hy howner hargs =>
    refine (hnormal.isSharedMethod hp hy).eq_true ?_
    by_cases hsame : owner' = owner
    · -- on one owner it is the arguments that differ
      refine .inr (hargs.symm.exists_erased_of_ne hp ?_)
      rintro rfl
      exact hne (hp.eq_of_derivedMethod hy (hsame ▸ hx))
    · exact .inl (.inr (howner.symm.erasesReference_of_ne hp hsame))

/-- Looking for the placeholder agrees with making canonical forms: the placeholder is in the
canonical form of a type exactly if the type is the placeholder or erases a reference, so it is
there whenever the form is another type, and a canonical method that is another method is shared
code. -/
theorem Reachable.canonical_mentionsCanon (h : p.Reachable) :
    (∀ x, p.HasType x → ∃ c q, ProgramM.canonicalType x p = .ok c q ∧
      Decides (q.mentionsCanon c) (x = .canon ∨ p.ErasesReference x) ∧
      (c ≠ x → q.mentionsCanon c = .ok true)) ∧
    ∀ m, p.HasMethod m → ∃ c q shared, ProgramM.canonicalMethod m p = .ok c q ∧
      q.isSharedMethod c = .ok shared ∧ (c ≠ m → shared = true) := by
  have hp := h.wellFormed
  refine ⟨fun x hx => ?_, fun m hm => ?_⟩
  · obtain ⟨c, q, hc, hpq, hform, hq⟩ := hp.exists_typeForm hx
    have hdecides := hform.mentionsCanon hq.wellFormed
    refine ⟨c, q, hc, hdecides.congr (or_congr_right ?_), fun hne => ?_⟩
    · exact ⟨fun herases => herases.of_le hp hpq hx, fun herases => herases.mono hpq⟩
    · apply hdecides.eq_true
      exact .inr (hform.shares.erasesReference_of_ne hq.wellFormed (Ne.symm hne))
  · obtain ⟨c, q, hc, hq, hform⟩ := ProgramM.canonicalMethod_form hp h.housed hm
    have hmethod : q.HasMethod c := hform.normal.hasMethod
    obtain ⟨shared, hshared⟩ := (Extension.refl hq.wellFormed).exists_isSharedMethod hmethod
    refine ⟨c, q, shared, hc, hshared, fun hne => ?_⟩
    have htrue := hform.isSharedMethod hq.wellFormed hne
    exact (Except.ok.inj (htrue.symm.trans hshared)).symm

/-- Lists of optional lists of optional texts share the code of lists of optional placeholders, and
so does `Map` on lists of optional texts; a number has no placeholder in it. -/
theorem collections_canonical_mentionsCanon :
    (∃ c q, ProgramM.canonicalType ⟨9⟩ collections = .ok c q ∧ c ≠ ⟨9⟩ ∧
      q.mentionsCanon c = .ok true) ∧
    (∃ c q, ProgramM.canonicalType ⟨4⟩ collections = .ok c q ∧ q.mentionsCanon c = .ok false) ∧
    ∃ c q, ProgramM.canonicalMethod ⟨7⟩ collections = .ok c q ∧ c ≠ ⟨7⟩ ∧
      q.isSharedMethod c = .ok true := by
  obtain ⟨htypes, hmethods⟩ := Reachable.canonical_mentionsCanon collections_reachable
  refine ⟨?_, ?_, ?_⟩
  · have hother : ∃ c q, ProgramM.canonicalType ⟨9⟩ collections = .ok c q ∧ c ≠ ⟨9⟩ := by
      decide +kernel
    obtain ⟨c, q, hc, hne⟩ := hother
    obtain ⟨c, q, hc', -, htrue⟩ := htypes ⟨9⟩ (by decide +kernel)
    cases hc.symm.trans hc'
    exact ⟨c, q, hc, hne, htrue hne⟩
  · obtain ⟨c, q, hc, hdecides, -⟩ := htypes ⟨4⟩ (by decide +kernel)
    obtain ⟨answer, hanswer, hiff⟩ := hdecides
    refine ⟨c, q, hc, ?_⟩
    have hnumber : ∃ desc, collections.typeDesc ⟨4⟩ = .ok desc ∧ desc.origin = .declared := by
      decide +kernel
    obtain ⟨desc, hd, ho⟩ := hnumber
    cases answer with
    | false => exact hanswer
    | true => exact ((hiff.1 rfl).elim nofun (not_erasesReference_of_declared hd ho)).elim
  · have hother : ∃ c q, ProgramM.canonicalMethod ⟨7⟩ collections = .ok c q ∧ c ≠ ⟨7⟩ := by
      decide +kernel
    obtain ⟨c, q, hc, hne⟩ := hother
    obtain ⟨c, q, shared, hc', hshared, htrue⟩ := hmethods ⟨7⟩ (by decide +kernel)
    cases hc.symm.trans hc'
    exact ⟨c, q, hc, hne, htrue hne ▸ hshared⟩

end Program

end NativeImage
