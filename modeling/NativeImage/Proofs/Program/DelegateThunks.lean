import Mathlib.Data.List.Induction
import NativeImage.Proofs.Program.Counterparts
import NativeImage.Proofs.Program.Interning

/-!
# The thunks of a delegate definition

The information of a delegate type is that of its definition. When it is asked for the first time,
through whichever instance, the definition gets its thunks; from then on the answer stays the same
and nothing is added. On every instance each thunk has a counterpart of its own.

## Main definitions

- `TypeDesc.thunks`, `InvokeThunk.method` — the thunks that a definition gets
- `Program.AskedFor` — calls that have asked for the information of a definition
- `Program.DelegateAnswer` — an answer that stays the same, with thunks that are its own

## Main statements

- `ProgramM.delegateInfo_first`, `Program.AskedFor.again` — the first call, and every later one
- `Program.askedFor_of_hasThunk` — no definition has thunks before it has been asked for
- `Program.delegateInfo_once`
-/

namespace NativeImage

/-- The thunks that a delegate definition gets. -/
def TypeDesc.thunks (definition : TypeDesc) : List InvokeThunk :=
  if definition.nativeSignature && !definition.isGenericDefinition then
    [.openStatic, .closedStatic, .reverseNative]
  else [.openStatic, .closedStatic]

/-- The method that a thunk is: one of the instances of its owner, for calls with that many
arguments. -/
def InvokeThunk.method (kind : InvokeThunk) (owner : TypeId) (invokeArity : Nat) : MethodDesc :=
  ⟨{ name := kind.methodName, owner, paramCount := invokeArity }, .thunk kind⟩

namespace Program

variable {p q : Program} {home : TypeId} {kind : InvokeThunk} {arity : Nat}

/-- The program with one more method for each of the thunks. -/
def withThunks (p : Program) (home : TypeId) (arity : Nat) (kinds : List InvokeThunk) : Program :=
  { p with methods := p.methods ++ (kinds.map fun kind => kind.method home arity).toArray }

/-- The type has a thunk of this kind. -/
def HasThunk (p : Program) (home : TypeId) (kind : InvokeThunk) : Prop :=
  ∃ id desc, p.methodDesc id = .ok desc ∧ desc.origin = .thunk kind ∧ desc.owner = home

theorem findThunk?_eq_none_of_not_hasThunk (h : ¬ p.HasThunk home kind) :
    p.findThunk? home kind = none := by
  refine Option.eq_none_iff_forall_ne_some.2 fun id hid => h ?_
  obtain ⟨desc, hd, horigin⟩ := findThunk?_spec hid
  exact ⟨id, desc, hd, horigin⟩

/-- One more method is a thunk of its own kind and owner only. -/
theorem hasThunk_push {desc : MethodDesc}
    (h : HasThunk { p with methods := p.methods.push desc } home kind) :
    p.HasThunk home kind ∨ desc.origin = .thunk kind ∧ desc.owner = home := by
  obtain ⟨id, found, hf, ho, hw⟩ := h
  rcases methodDesc_push.1 hf with hold | ⟨-, rfl⟩
  · exact .inl ⟨id, found, hold, ho, hw⟩
  · exact .inr ⟨ho, hw⟩

/-- The program with one more thunk. -/
def addThunk (p : Program) (home : TypeId) (arity : Nat) (kind : InvokeThunk) : Program :=
  { p with methods := p.methods.push (kind.method home arity) }

theorem not_hasThunk_addThunk {other : InvokeThunk} (h : ¬ p.HasThunk home other)
    (hne : kind ≠ other) : ¬ (p.addThunk home arity kind).HasThunk home other := by
  intro hadded
  rcases hasThunk_push hadded with hold | ⟨ho, -⟩
  · exact h hold
  · cases ho
    exact hne rfl

theorem withThunks_nil (p : Program) (home : TypeId) (arity : Nat) :
    p.withThunks home arity [] = p := by
  rw [withThunks, List.map_nil]
  simp

theorem withThunks_cons (p : Program) (home : TypeId) (arity : Nat) (kind : InvokeThunk)
    (kinds : List InvokeThunk) : p.withThunks home arity (kind :: kinds) =
      (p.addThunk home arity kind).withThunks home arity kinds := by
  simp [withThunks, addThunk]

theorem hasThunk_of_methods (hmethods : q.methods = p.methods) (h : q.HasThunk home kind) :
    p.HasThunk home kind := by
  obtain ⟨id, desc, hd, horigin⟩ := h
  rw [methodDesc, hmethods] at hd
  exact ⟨id, desc, hd, horigin⟩

end Program

namespace ProgramM

open Program

variable {p q : Program} {type other home : TypeId} {kind : InvokeThunk} {arity : Nat}
  {desc : TypeDesc} {info : DelegateInfo}

/-! ## The first answer -/

/-- A thunk that is not there is appended. -/
theorem internThunk_of_not_hasThunk (h : ¬ p.HasThunk home kind) (arity : Nat) :
    internThunk home arity kind p = .ok ⟨p.methods.size⟩ (p.addThunk home arity kind) := by
  rw [internThunk, get_bind_apply, findThunk?_eq_none_of_not_hasThunk h]
  rfl

/-- Only the definition counts. -/
theorem delegateInfo_congr (h : p.typeDefinition type = p.typeDefinition other) :
    delegateInfo type p = delegateInfo other p := by
  rw [delegateInfo, delegateInfo, bind_apply, bind_apply, ask, ask, h]

/-- Types of other kinds are refused. -/
theorem delegateInfo_refused (hhome : p.typeDefinition type = .ok home)
    (hdesc : p.typeDesc home = .ok desc) (harity : desc.invokeArity? = none) :
    delegateInfo type p = .error (.notADelegate desc.name) p := by
  rw [delegateInfo, bind_of_ok (ask_eq_ok hhome), bind_of_ok (ask_eq_ok hdesc), harity]
  rfl

/-- A definition that has no thunks gets all of them, and nothing else is added. -/
theorem delegateInfo_first (hhome : p.typeDefinition type = .ok home)
    (hdesc : p.typeDesc home = .ok desc) (harity : desc.invokeArity? = some arity)
    (hnone : ∀ kind, ¬ p.HasThunk home kind) :
    ∃ info, delegateInfo type p = .ok info (p.withThunks home arity desc.thunks) := by
  have hopen := internThunk_of_not_hasThunk (hnone .openStatic) arity
  have hsecond : ¬ (p.addThunk home arity .openStatic).HasThunk home .closedStatic :=
    not_hasThunk_addThunk (hnone _) nofun
  have hclosed := internThunk_of_not_hasThunk hsecond arity
  have hthird : ¬ ((p.addThunk home arity .openStatic).addThunk home arity .closedStatic).HasThunk
      home .reverseNative :=
    not_hasThunk_addThunk (not_hasThunk_addThunk (hnone _) nofun) nofun
  have hreverse := internThunk_of_not_hasThunk hthird arity
  rw [delegateInfo, bind_of_ok (ask_eq_ok hhome), bind_of_ok (ask_eq_ok hdesc), harity]
  dsimp only
  rw [bind_of_ok hopen, bind_of_ok hclosed, TypeDesc.thunks]
  split
  · rw [← bind_pure_comp, bind_assoc, bind_of_ok hreverse, withThunks_cons, withThunks_cons,
      withThunks_cons, withThunks_nil]
    exact ⟨_, rfl⟩
  · rw [withThunks_cons, withThunks_cons, withThunks_nil]
    exact ⟨_, rfl⟩

/-! ## What is answered -/

theorem mem_thunks : kind ∈ desc.thunks ↔ desc.hasThunk kind = true := by
  rw [TypeDesc.thunks]
  cases kind <;> split <;> simp_all [TypeDesc.hasThunk]

/-- An answer has the thunks that the definition gets, and they are what they should be. -/
theorem delegateInfo_answer (hp : p.WellFormed) (hx : delegateInfo type p = .ok info q) :
    ∃ home desc, p.typeDefinition type = .ok home ∧ p.typeDesc home = .ok desc ∧
      desc.invokeArity? = some info.invokeArity ∧
      (∀ kind, (info.thunk? kind).isSome ↔ kind ∈ desc.thunks) ∧
      ∀ kind id, info.thunk? kind = some id →
        q.methodDesc id = .ok (kind.method home info.invokeArity) := by
  obtain ⟨home, hhome, hrest⟩ := ask_bind_eq_ok.1 hx
  obtain ⟨own, hown, -⟩ := typeDefinition_eq_ok.1 hhome
  obtain ⟨home', desc, hhome', hdesc, hdecl⟩ :=
    (Extension.refl hp).exists_typeDefinition (hasType_of_desc hown)
  cases hhome.symm.trans hhome'
  cases harity : desc.invokeArity? with
  | none =>
    cases (delegateInfo_refused hhome hdesc harity).symm.trans hx
  | some arity =>
    cases delegateInfo_ends (E := fun _ _ => False) (.refl hp) hhome hdesc hdecl harity with
    | error _ _ _ hfalse => exact hfalse.elim
    | ok hx' hle hq hof =>
      cases hx'.symm.trans hx
      obtain ⟨rfl, hsome, hthunk⟩ := hof
      refine ⟨home, desc, hhome, hdesc, harity, fun kind => ?_, fun kind id hid => ?_⟩
      · rw [hsome, mem_thunks]
      · obtain ⟨found, hfound, horigin⟩ := delegateInfo_thunk hx hid
        obtain ⟨found', hfound', -, howner⟩ := hthunk kind id hid
        cases hfound.symm.trans hfound'
        obtain ⟨owner, arity, hd, -, harity', hmethod⟩ :=
          (hq.wellFormed.method_ok hfound).thunk horigin
        rw [howner] at hd hmethod
        cases hd.symm.trans (typeDesc_stable _ _ _ hdesc _ hle)
        cases harity.symm.trans harity'
        have hsame : found = ⟨found.toMethodDeclaration, found.origin⟩ := rfl
        rw [hfound, hsame, hmethod, horigin]
        rfl

/-- Whoever asks later gets the same answer, whichever instance it asks for, and adds nothing. -/
theorem delegateInfo_again {r : Program} (hx : delegateInfo type p = .ok info q)
    (hhome : p.typeDefinition type = .ok home) (hle : q ≤ r)
    (hother : r.typeDefinition other = .ok home) : delegateInfo other r = .ok info r := by
  have hpr := ((delegateInfo_settles type).grows hx).trans hle
  rw [← delegateInfo_congr ((typeDefinition_stable _ _ _ hhome _ hpr).trans hother.symm)]
  exact (delegateInfo_settles type).again hx hle

/-! ## Who adds thunks -/

/-- Method instances are no thunks. -/
theorem internMethod_hasThunk {definition id : MethodId} {owner : TypeId} {args : List TypeId}
    {original : MethodDesc} (hd : p.methodDesc definition = .ok original)
    (hx : internMethod definition owner args p = .ok id q) (h : q.HasThunk home kind) :
    p.HasThunk home kind := by
  rcases internMethod_cases hd hx with rfl | ⟨-, desc, ho, -, rfl⟩
  · exact h
  · rcases hasThunk_push h with hold | ⟨ho', -⟩
    · exact hold
    · cases ho.symm.trans ho'

theorem internThunk_hasThunk {owner : TypeId} {given : InvokeThunk} {id : MethodId}
    (hx : internThunk owner arity given p = .ok id q) (h : q.HasThunk home kind) :
    p.HasThunk home kind ∨ owner = home := by
  rw [internThunk, get_bind_apply] at hx
  cases hfind : p.findThunk? owner given with
  | some found =>
    rw [hfind] at hx
    cases hx
    exact .inl h
  | none =>
    rw [hfind] at hx
    cases hx
    exact (hasThunk_push h).imp_right And.right

theorem canonicalMethod_hasThunk (hp : p.WellFormed) {id x : MethodId} (hid : p.HasMethod id)
    (hx : canonicalMethod id p = .ok x q) (h : q.HasThunk home kind) : p.HasThunk home kind := by
  obtain ⟨desc, hd⟩ := hasMethod_iff.1 hid
  cases hdef : desc.definition? with
  | none =>
    rw [canonicalMethod_of_definition hd hdef] at hx
    cases hx
    exact h
  | some definition =>
    have hinst := DerivedMethod.of_definition hd hdef
    obtain ⟨original, horig, -⟩ := hinst.exists_original hp
    obtain ⟨form, s, hform, -, -, hs⟩ := hp.exists_typeForm (hinst.hasType_owner hp)
    obtain ⟨forms, t, hforms, ht, -⟩ := hs.wellFormed.exists_argumentForms
      fun arg ha => (hinst.hasType_args hp arg ha).mono hs.le
    have hpt := hs.trans ht
    rw [canonicalMethod_of_derived hinst, bind_of_ok hform, bind_of_ok hforms] at hx
    refine hasThunk_of_methods hpt.methods ?_
    split at hx
    · cases hx
      exact h
    · exact internMethod_hasThunk (methodDesc_stable _ _ _ horig _ hpt.le) hx h

/-- A definition gets thunks only when it is asked for. -/
theorem delegateInfo_hasThunk (hx : delegateInfo type p = .ok info q) (h : q.HasThunk home kind) :
    p.HasThunk home kind ∨ p.typeDefinition type = .ok home := by
  obtain ⟨owner, arity, s, t, hhome, hopen, hclosed, hlast⟩ := delegateInfo_eq_ok hx
  have ht : t.HasThunk home kind ∨ owner = home := by
    rcases hlast with ⟨-, rfl⟩ | ⟨id, -, hreverse⟩
    · exact .inl h
    · exact internThunk_hasThunk hreverse h
  rcases ht with ht | rfl
  · rcases internThunk_hasThunk hclosed ht with hs | rfl
    · rcases internThunk_hasThunk hopen hs with hp | rfl
      · exact .inl hp
      · exact .inr hhome
    · exact .inr hhome
  · exact .inr hhome

end ProgramM

namespace InternCall

/-- A call that adds no thunks if it succeeds adds none. -/
theorem hasThunk_discard {α : Type} {p : Program} {R : Program → Prop} {V : Program → α → Prop}
    {x : ProgramM α} {home : TypeId} {kind : InvokeThunk}
    (hx : Ends R (fun q _ => q = p) V x p)
    (hok : ∀ {a q}, x p = .ok a q → q.HasThunk home kind → p.HasThunk home kind)
    (h : (stateAfter (discard x) p).HasThunk home kind) : p.HasThunk home kind :=
  kept_discard (P := fun q => q.HasThunk home kind → p.HasThunk home kind) (fun h => h) hx
    (fun _ hx => hok hx) h

/-- A call gives thunks to no definition but the one that it asks for. -/
theorem run_hasThunk {p : Program} (hp : p.WellFormed) {call : InternCall}
    (hv : call.Valid p) {home : TypeId} {kind : InvokeThunk}
    (h : (stateAfter call.run p).HasThunk home kind) :
    p.HasThunk home kind ∨ ∃ type info q, call = .delegateInfo type ∧
      p.typeDefinition type = .ok home ∧ ProgramM.delegateInfo type p = .ok info q := by
  have hext := Program.Extension.refl hp
  cases call with
  | instantiateType id args =>
    refine .inl (hasThunk_discard (ProgramM.instantiateType_outcome hext hv.1 hv.2)
      (fun hx => ?_) h)
    exact Program.hasThunk_of_methods (ProgramM.instantiateType_methods hx)
  | instantiateMethod id args =>
    refine .inl (hasThunk_discard (ProgramM.instantiateMethod_outcome hext hv.1 hv.2)
      (fun hx => ?_) h)
    obtain ⟨desc, hd, -, -, hx⟩ := ProgramM.instantiateMethod_eq_ok.1 hx
    obtain ⟨original, horig, -⟩ := hp.exists_original hd
    exact ProgramM.internMethod_hasThunk horig hx
  | methodOnType id type =>
    refine .inl (hasThunk_discard (ProgramM.methodOnType_outcome hext hv.1 hv.2)
      (fun hx => ?_) h)
    obtain ⟨desc, original, -, horig, -, hx⟩ := ProgramM.methodOnType_eq_ok.1 hx
    exact ProgramM.internMethod_hasThunk horig hx
  | canonicalType id =>
    obtain ⟨form, q, hform, -, -, hq⟩ := hp.exists_typeForm hv
    refine .inl (hasThunk_discard (ProgramM.canonicalType_ends hext hv) (fun hx => ?_) h)
    cases hform.symm.trans hx
    exact Program.hasThunk_of_methods hq.methods
  | canonicalMethod id =>
    exact .inl (hasThunk_discard (ProgramM.canonicalMethod_ends hext hv)
      (fun hx => ProgramM.canonicalMethod_hasThunk hp hv hx) h)
  | delegateInfo type =>
    refine kept_discard (P := fun q => q.HasThunk home kind → _) .inl
      (ProgramM.delegateInfo_outcome hext hv) (fun {info q} _ hx h => ?_) h
    exact (ProgramM.delegateInfo_hasThunk hx h).imp_right fun hhome =>
      ⟨type, info, q, rfl, hhome, hx⟩

end InternCall

/-! ## Histories -/

namespace Program

variable {p : Program} {before after calls : List ProgramCall} {home : TypeId}
  {kind : InvokeThunk}

theorem after_append (p : Program) (before after : List ProgramCall) :
    p.after (before ++ after) = (p.after before).after after :=
  List.foldl_append

theorem validCalls_append : p.ValidCalls (before ++ after) ↔
    p.ValidCalls before ∧ (p.after before).ValidCalls after := by
  induction before generalizing p with
  | nil => exact (and_iff_right trivial).symm
  | cons call rest ih => exact (and_congr_right fun _ => ih).trans and_assoc.symm

theorem le_after (p : Program) (calls : List ProgramCall) : p ≤ p.after calls := by
  induction calls generalizing p with
  | nil => exact le_rfl
  | cons call rest ih => exact (call.le_stateAfter p).trans (ih _)

/-- One of the calls has asked for the information of the definition, and got it. -/
def AskedFor (calls : List ProgramCall) (home : TypeId) : Prop :=
  ∃ before type after info q, calls = before ++ .intern (.delegateInfo type) :: after ∧
    (initial.after before).typeDefinition type = .ok home ∧
    ProgramM.delegateInfo type (initial.after before) = .ok info q

theorem AskedFor.append (h : AskedFor before home) (after : List ProgramCall) :
    AskedFor (before ++ after) home := by
  obtain ⟨first, type, rest, info, q, rfl, hasked⟩ := h
  exact ⟨first, type, rest ++ after, info, q, by simp, hasked⟩

/-- After that every call gets an answer, and adds nothing. -/
theorem AskedFor.again (h : AskedFor calls home) :
    ∃ info, ∀ r, initial.after calls ≤ r → ∀ other, r.typeDefinition other = .ok home →
      ProgramM.delegateInfo other r = .ok info r := by
  obtain ⟨before, type, after, info, q, rfl, hhome, hx⟩ := h
  refine ⟨info, fun r hle other hother => ProgramM.delegateInfo_again hx hhome ?_ hother⟩
  have hq : stateAfter (InternCall.delegateInfo type).run (initial.after before) = q := by
    rw [InternCall.run, stateAfter_discard, stateAfter, hx]
  rw [after_append] at hle
  refine le_trans ?_ hle
  rw [← hq]
  exact le_after _ after

/-- No definition has thunks before it has been asked for. -/
theorem askedFor_of_hasThunk (hv : initial.ValidCalls calls)
    (h : (initial.after calls).HasThunk home kind) : AskedFor calls home := by
  -- on the last call: only asking for the definition's information adds thunks of it
  induction calls using List.reverseRecOn with
  | nil =>
    obtain ⟨id, desc, hd, ho, -⟩ := h
    cases ho.symm.trans (initial_methodDesc hd).1
  | append_singleton calls call ih =>
    obtain ⟨hcalls, hcall, -⟩ := validCalls_append.1 hv
    have hp := (Reachable.initial.after hcalls).wellFormed
    have hold (h : (initial.after calls).HasThunk home kind) : AskedFor (calls ++ [call]) home :=
      (ih hcalls h).append [call]
    rw [after_append] at h
    cases call with
    | declareModule desc => exact hold (hasThunk_of_methods rfl h)
    | declareType type => exact hold (hasThunk_of_methods rfl h)
    | declareMethod method =>
      rcases hasThunk_push h with h | ⟨ho, -⟩
      · exact hold h
      · cases ho
    | intern call =>
      rcases InternCall.run_hasThunk hp hcall h with h | ⟨type, info, q, rfl, hhome, hx⟩
      · exact hold h
      · exact ⟨calls, type, [], info, q, rfl, hhome, hx⟩

/-! ## Once for each definition -/

/-- The information of a definition that a program was given and keeps. Its thunks are those that
the definition gets, instance methods of the definition with its arity. Whoever asks later gets the
same, whichever instance it asks for, and adds nothing. No other definition has these thunks, nor
are two of them the same. On every instance each has a counterpart, and on different instances
different ones. -/
structure DelegateAnswer (q : Program) (home : TypeId) (desc : TypeDesc) (info : DelegateInfo) :
    Prop where
  invokeArity : desc.invokeArity? = some info.invokeArity
  kinds : ∀ kind, (info.thunk? kind).isSome ↔ kind ∈ desc.thunks
  method : ∀ kind id, info.thunk? kind = some id →
    q.methodDesc id = .ok (kind.method home info.invokeArity)
  again : ∀ r, q ≤ r → ∀ other, r.typeDefinition other = .ok home →
    ProgramM.delegateInfo other r = .ok info r
  own : ∀ r, q ≤ r → r.Reachable → ∀ other info' r',
    ProgramM.delegateInfo other r = .ok info' r' → ∀ kind kind' id,
      info.thunk? kind = some id → info'.thunk? kind' = some id →
        kind' = kind ∧ r.typeDefinition other = .ok home
  counterpart : ∀ r, q ≤ r → r.Reachable → ∀ kind id, info.thunk? kind = some id →
    ∀ type, r.typeDefinition type = .ok home → ∃ x t found,
      ProgramM.methodOnType id type r = .ok x t ∧ t.methodDesc x = .ok found ∧
        found.owner = type
  counterpart_inj : ∀ r, q ≤ r → r.Reachable → ∀ kind id, info.thunk? kind = some id →
    ∀ type x t, ProgramM.methodOnType id type r = .ok x t →
      ∀ r', t ≤ r' → r'.Reachable → ∀ other t', ProgramM.methodOnType id other r' = .ok x t' →
        other = type

section Answer

variable {q : Program} {type : TypeId} {info : DelegateInfo}

/-- What a method becomes on a type is owned by the type. -/
theorem WellFormed.owner_of_methodOnType (hp : p.WellFormed) {id x : MethodId}
    (hx : ProgramM.methodOnType id type p = .ok x q) :
    ∃ found, q.methodDesc x = .ok found ∧ found.owner = type := by
  obtain ⟨moved, original, hd, -, hhome, -⟩ := ProgramM.methodOnType_eq_ok.1 hx
  obtain ⟨own, hown, -⟩ := typeDefinition_eq_ok.1 hhome
  have hreaches := ProgramM.methodOnType_reaches hp hd (hasType_of_desc hown)
  obtain ⟨before, after, -, hafter, -, hdecl, -⟩ := hreaches.counterpart hx
  exact ⟨after, hafter, congrArg MethodDeclaration.owner hdecl⟩

/-- Every answer is one. -/
theorem Reachable.delegateAnswer (hp : p.Reachable)
    (hx : ProgramM.delegateInfo type p = .ok info q) : ∃ home desc,
      p.typeDefinition type = .ok home ∧ p.typeDesc home = .ok desc ∧
        q.DelegateAnswer home desc info := by
  obtain ⟨home, desc, hhome, hdesc, harity, hkinds, hmethod⟩ :=
    ProgramM.delegateInfo_answer hp.wellFormed hx
  refine ⟨home, desc, hhome, hdesc, harity, hkinds, hmethod,
    fun r hle other hother => ProgramM.delegateInfo_again hx hhome hle hother, ?_, ?_, ?_⟩
  · intro r hle hr other info' r' hx' kind kind' id hid hid'
    obtain ⟨home', -, hother, -, -, -, hmethod'⟩ := ProgramM.delegateInfo_answer hr.wellFormed hx'
    have hle' := hle.trans ((ProgramM.delegateInfo_settles other).grows hx')
    have hsame := (methodDesc_stable _ _ _ (hmethod kind id hid) _ hle').symm.trans
      (hmethod' kind' id hid')
    rw [Except.ok.injEq, InvokeThunk.method, InvokeThunk.method, MethodDesc.mk.injEq] at hsame
    obtain ⟨hdecl, horigin⟩ := hsame
    have howner : home = home' := congrArg MethodDeclaration.owner hdecl
    cases horigin
    exact ⟨rfl, howner ▸ hother⟩
  · intro r hle hr kind id hid type htype
    have hd := methodDesc_stable _ _ _ (hmethod kind id hid) _ hle
    obtain ⟨own, hown, -⟩ := typeDefinition_eq_ok.1 htype
    have hreaches := ProgramM.methodOnType_reaches hr.wellFormed hd (hasType_of_desc hown)
    obtain ⟨x, t, hx⟩ := hreaches.succeeds ⟨_, _, hd, hd, htype⟩
    obtain ⟨found, hfound⟩ := hr.wellFormed.owner_of_methodOnType hx
    exact ⟨x, t, found, hx, hfound⟩
  · intro r _ hr kind id _ type x t hx r' hle hr' other t' hx'
    obtain ⟨found, hfound, rfl⟩ := hr.wellFormed.owner_of_methodOnType hx
    obtain ⟨found', hfound', rfl⟩ := hr'.wellFormed.owner_of_methodOnType hx'
    have hlater := hle.trans ((ProgramM.methodOnType_settles id _).grows hx')
    cases (methodDesc_stable _ _ _ hfound _ hlater).symm.trans hfound'
    rfl

/-- A program that was built by calls is asked for the information of a delegate type. Only the
definition counts. If it is not that of a delegate the call fails and changes nothing. Otherwise it
gets an answer that stays the same; when it is the first one for the definition, the thunks that the
definition gets are added, and after that nothing is. -/
theorem delegateInfo_once (hv : initial.ValidCalls calls)
    (htype : (initial.after calls).HasType type) : ∃ home desc,
      (initial.after calls).typeDefinition type = .ok home ∧
      (initial.after calls).typeDesc home = .ok desc ∧
      (∀ other, (initial.after calls).typeDefinition other = .ok home →
        ProgramM.delegateInfo other (initial.after calls) =
          ProgramM.delegateInfo type (initial.after calls)) ∧
      (desc.invokeArity? = none ∧ ProgramM.delegateInfo type (initial.after calls) =
          .error (.notADelegate desc.name) (initial.after calls) ∨
        ∃ info q, ProgramM.delegateInfo type (initial.after calls) = .ok info q ∧
          (¬ AskedFor calls home →
            q = (initial.after calls).withThunks home info.invokeArity desc.thunks) ∧
          (AskedFor calls home → q = initial.after calls) ∧ q.DelegateAnswer home desc info) := by
  have hp := Reachable.initial.after hv
  obtain ⟨home, desc, hhome, hdesc, -⟩ := (Extension.refl hp.wellFormed).exists_typeDefinition htype
  refine ⟨home, desc, hhome, hdesc, fun other hother =>
    ProgramM.delegateInfo_congr (hother.trans hhome.symm), ?_⟩
  cases harity : desc.invokeArity? with
  | none => exact .inl ⟨rfl, ProgramM.delegateInfo_refused hhome hdesc harity⟩
  | some arity =>
    right
    have hanswer {info : DelegateInfo} {q : Program}
        (hx : ProgramM.delegateInfo type (initial.after calls) = .ok info q) :
        q.DelegateAnswer home desc info := by
      obtain ⟨home', desc', hhome', hdesc', hanswer⟩ := hp.delegateAnswer hx
      cases hhome.symm.trans hhome'
      cases hdesc.symm.trans hdesc'
      exact hanswer
    by_cases hasked : AskedFor calls home
    · obtain ⟨info, hagain⟩ := hasked.again
      have hx := hagain _ le_rfl type hhome
      exact ⟨info, _, hx, fun hnot => absurd hasked hnot, fun _ => rfl, hanswer hx⟩
    · obtain ⟨info, hx⟩ := ProgramM.delegateInfo_first hhome hdesc harity
        fun kind hthunk => hasked (askedFor_of_hasThunk hv hthunk)
      have hinfo := hanswer hx
      cases harity.symm.trans hinfo.invokeArity
      exact ⟨info, _, hx, fun _ => rfl, fun h => absurd h hasked, hinfo⟩

end Answer

/-- Callbacks that native code can invoke. -/
def callbackType : TypeDeclaration :=
  { name := "Callback", module := .core, kind := .delegate 1, nativeSignature := true }

/-- Handlers of values, for values of any type. -/
def handlerType : TypeDeclaration :=
  { name := "Handler", module := .core, kind := .delegate 2, nativeSignature := true,
    genericArity := 1 }

/-- Both are declared, and the information of handlers of texts is asked for. -/
def handlerCalls : List ProgramCall :=
  [.declareType callbackType, .declareType handlerType,
    .declareType { name := "Text", module := .core }, .intern (.instantiateType ⟨3⟩ [⟨4⟩]),
    .intern (.delegateInfo ⟨5⟩)]

/-- The handlers have their two thunks, so asking for them adds nothing; the callbacks get three. -/
theorem handlers_delegateInfo_once :
    (∃ info, ProgramM.delegateInfo ⟨3⟩ (initial.after handlerCalls) =
      .ok info (initial.after handlerCalls)) ∧
    ∃ info, ProgramM.delegateInfo ⟨2⟩ (initial.after handlerCalls) = .ok info
      ((initial.after handlerCalls).withThunks ⟨2⟩ 1
        [.openStatic, .closedStatic, .reverseNative]) := by
  have hv : initial.ValidCalls handlerCalls := by decide +kernel
  have hasked : AskedFor handlerCalls ⟨3⟩ := by
    have hok : (match ProgramM.delegateInfo ⟨5⟩ (initial.after (handlerCalls.take 4)) with
        | .ok _ _ => true
        | .error _ _ => false) = true := by decide +kernel
    split at hok
    · next info q hx => exact ⟨handlerCalls.take 4, ⟨5⟩, [], info, q, rfl, by decide +kernel, hx⟩
    · cases hok
  have hnot : ¬ AskedFor handlerCalls ⟨2⟩ := by
    intro hasked
    obtain ⟨info, hagain⟩ := hasked.again
    have hx := hagain _ le_rfl ⟨2⟩ (by decide +kernel)
    have hgrows : (match ProgramM.delegateInfo ⟨2⟩ (initial.after handlerCalls) with
        | .ok _ q => decide (q = initial.after handlerCalls)
        | .error _ _ => false) = false := by decide +kernel
    rw [hx] at hgrows
    simp at hgrows
  refine ⟨?_, ?_⟩
  · obtain ⟨home, desc, hhome, hdesc, -, hresult⟩ :=
      delegateInfo_once hv (by decide +kernel : (initial.after handlerCalls).HasType ⟨3⟩)
    have hself : (initial.after handlerCalls).typeDefinition ⟨3⟩ = .ok ⟨3⟩ := by decide +kernel
    have hdecl : (initial.after handlerCalls).typeDesc ⟨3⟩ = .ok ⟨handlerType, .declared⟩ := by
      decide +kernel
    cases hself.symm.trans hhome
    cases hdecl.symm.trans hdesc
    rcases hresult with ⟨hnone, -⟩ | ⟨info, q, hx, -, hsame, -⟩
    · cases hnone
    · cases hsame hasked
      exact ⟨info, hx⟩
  · obtain ⟨home, desc, hhome, hdesc, -, hresult⟩ :=
      delegateInfo_once hv (by decide +kernel : (initial.after handlerCalls).HasType ⟨2⟩)
    have hself : (initial.after handlerCalls).typeDefinition ⟨2⟩ = .ok ⟨2⟩ := by decide +kernel
    have hdecl : (initial.after handlerCalls).typeDesc ⟨2⟩ = .ok ⟨callbackType, .declared⟩ := by
      decide +kernel
    cases hself.symm.trans hhome
    cases hdecl.symm.trans hdesc
    rcases hresult with ⟨hnone, -⟩ | ⟨info, q, hx, hfirst, -, hanswer⟩
    · cases hnone
    · have harity : 1 = info.invokeArity := Option.some.inj hanswer.invokeArity
      cases hfirst hnot
      rw [← harity] at hx
      exact ⟨info, hx⟩

end Program

end NativeImage
