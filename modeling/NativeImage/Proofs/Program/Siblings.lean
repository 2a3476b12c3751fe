import NativeImage.Proofs.Program.MethodMatching

/-!
# Operations on two extensions of a base

Interning, canonical forms and delegate information agree on any two extensions of a base: applied
to matching handles they give matching handles, or fail with the same message.

## Main definitions

- `Program.Siblings` — two extensions of one base
- `DelegateInfo.Match` — information about matching delegate types

## Main statements

- `ProgramM.canonicalType_agrees`, `ProgramM.canonicalMethod_agrees` — canonical forms of what
  matches match
- `ProgramM.delegateInfo_agrees` — so does what is known of delegates
-/

namespace NativeImage

namespace Program

/-- Two extensions of one base. -/
structure Siblings (base p q : Program) : Prop where
  left : Extension base p
  right : Extension base q

variable {base p q p' q' : Program}

theorem Extension.step (h : Extension base p) (hp : p'.WellFormed) (hle : p.Derives p') :
    Extension base p' := ⟨h.base_ok, hp, h.derives.trans hle⟩

theorem typeMatch_lasting (base : Program) : Lasting (TypeMatch base) :=
  fun h hp hq => h.mono hp hq

/-- Of two matching lists one is what was asked for exactly if the other is. -/
theorem Siblings.forall₂_eq_iff (hr : Siblings base p q) {as bs : List TypeId}
    {as' bs' : List TypeId} (h : List.Forall₂ (TypeMatch base p q) as as')
    (h' : List.Forall₂ (TypeMatch base p q) bs bs') : as = bs ↔ as' = bs' := by
  constructor
  · rintro rfl
    exact TypeMatch.forall₂_unique hr.right.wellFormed h h'
  · rintro rfl
    exact TypeMatch.forall₂_unique hr.left.wellFormed (TypeMatch.forall₂_symm h)
      (TypeMatch.forall₂_symm h')

theorem Siblings.type_eq_iff (hr : Siblings base p q) {x y x' y' : TypeId}
    (h : TypeMatch base p q x x') (h' : TypeMatch base p q y y') : x = y ↔ x' = y' := by
  constructor
  · rintro rfl
    exact h.unique hr.right.wellFormed h'
  · rintro rfl
    exact h.unique_left hr.left.wellFormed h'

theorem Siblings.method_eq_iff (hr : Siblings base p q) {x y x' y' : MethodId}
    (h : MethodMatch base p q x x') (h' : MethodMatch base p q y y') : x = y ↔ x' = y' := by
  constructor
  · rintro rfl
    exact h.unique hr.right.wellFormed h'
  · rintro rfl
    exact h.unique_left hr.left.wellFormed h'

end Program

namespace ProgramM

open Program

variable {base p q : Program}

theorem ask_eq_ok {α : Type} {question : Program → Except ProgramError α} {a : α}
    (h : question p = .ok a) : ask question p = .ok a p := by
  rw [ask, h]

/-- Questions that both programs can answer may be asked first. -/
theorem agree_ask {α β γ δ : Type} {R : Program → Program → Prop}
    {V : Program → Program → γ → δ → Prop} {question : Program → Except ProgramError α}
    {question' : Program → Except ProgramError β} {a : α} {b : β} {f : α → ProgramM γ}
    {g : β → ProgramM δ} (hx : question p = .ok a) (hy : question' q = .ok b)
    (h : Agree R V (f a) (g b) p q) :
    Agree R V (ask question >>= f) (ask question' >>= g) p q :=
  .read (ask_eq_ok hx) (ask_eq_ok hy) h

/-! ## Interning -/

/-- Instances of one definition for matching arguments match, whether they are found or added. -/
theorem internType_agrees (hr : Siblings base p q) {definition : TypeId} {args args' : List TypeId}
    {original : TypeDesc} (hd : base.typeDesc definition = .ok original)
    (hdecl : original.origin = .declared) (hlen : original.genericArity = args.length)
    (hne : args ≠ []) (hargs : List.Forall₂ (TypeMatch base p q) args args') :
    Agree (Siblings base) (TypeMatch base) (internType definition args)
      (internType definition args') p q := by
  obtain ⟨hp, hq⟩ := hr
  obtain ⟨hleft, hright⟩ := TypeMatch.forall₂_hasType hp hq hargs
  have hne' : args' ≠ [] := by
    rintro rfl
    exact hne (List.forall₂_nil_right_iff.1 hargs)
  obtain ⟨x, p', hx, hp', hlep, hinst⟩ := internType_spec hp.wellFormed
    (typeDesc_stable _ _ _ hd _ hp.derives.le) hdecl hlen hne hleft
  obtain ⟨y, q', hy, hq', hleq, hinst'⟩ := internType_spec hq.wellFormed
    (typeDesc_stable _ _ _ hd _ hq.derives.le) hdecl (hlen.trans hargs.length_eq) hne' hright
  have hep := hp.step hp' hlep
  have heq := hq.step hq' hleq
  exact .ok hx hy hlep.le hleq.le ⟨hep, heq⟩
    (TypeMatch.of_instance hep heq hinst hinst' (hargs.imp fun _ _ h => h.mono hlep.le hleq.le))

/-- Instances of matching definitions on matching owners match. -/
theorem internMethod_agrees (hr : Siblings base p q) {x y : MethodId} {owner owner' : TypeId}
    {args args' : List TypeId} (h : MethodMatch base p q x y)
    (hdef : ∀ {original}, p.methodDesc x = .ok original → original.definition? = none)
    (howner : TypeMatch base p q owner owner')
    (hargs : List.Forall₂ (TypeMatch base p q) args args') :
    Agree (Siblings base) (MethodMatch base) (internMethod x owner args)
      (internMethod y owner' args') p q := by
  obtain ⟨hp, hq⟩ := hr
  obtain ⟨hleft, hright⟩ := TypeMatch.forall₂_hasType hp hq hargs
  obtain ⟨ho, ho'⟩ := howner.hasType hp hq
  obtain ⟨dx, dy, hdx, hdy, hagree⟩ := h.desc hp hq
  obtain ⟨z, p', hz, hp', hlep, hinst⟩ :=
    internMethod_spec hp.wellFormed hdx (hdef hdx) ho hleft
  obtain ⟨z', q', hz', hq', hleq, hinst'⟩ :=
    internMethod_spec hq.wellFormed hdy (hagree.definition?_eq_none.1 (hdef hdx)) ho' hright
  have hep := hp.step hp' hlep
  have heq := hq.step hq' hleq
  exact .ok hz hz' hlep.le hleq.le ⟨hep, heq⟩
    (MethodMatch.of_instance hep heq hinst hinst' (h.mono hlep.le hleq.le)
      (howner.mono hlep.le hleq.le) (hargs.imp fun _ _ h => h.mono hlep.le hleq.le))

/-- Thunks of one kind for one delegate definition match. -/
theorem internThunk_agrees (hr : Siblings base p q) {owner : TypeId} {desc : TypeDesc}
    {arity : Nat} (hd : base.typeDesc owner = .ok desc) (hdecl : desc.origin = .declared)
    (harity : desc.invokeArity? = some arity) (kind : InvokeThunk) :
    Agree (Siblings base) (MethodMatch base) (internThunk owner arity kind)
      (internThunk owner arity kind) p q := by
  obtain ⟨hp, hq⟩ := hr
  obtain ⟨x, p', hx, hp', hlep, dx, hdx, hox, how⟩ := internThunk_spec hp.wellFormed
    (typeDesc_stable _ _ _ hd _ hp.derives.le) hdecl harity kind
  obtain ⟨y, q', hy, hq', hleq, dy, hdy, hoy, how'⟩ := internThunk_spec hq.wellFormed
    (typeDesc_stable _ _ _ hd _ hq.derives.le) hdecl harity kind
  have hep := hp.step hp' hlep
  have heq := hq.step hq' hleq
  exact .ok hx hy hlep.le hleq.le ⟨hep, heq⟩
    (MethodMatch.of_thunk hep heq hdx hdy hox hoy (how.trans how'.symm)
      (how ▸ hasType_of_desc hd))

/-! ## Canonical forms -/

/-- Canonical types of matching types match. -/
theorem canonicalType_agrees (hr : Siblings base p q) {x y : TypeId} (h : TypeMatch base p q x y) :
    Agree (Siblings base) (TypeMatch base) (canonicalType x) (canonicalType y) p q := by
  suffices key : ∀ n {x y : TypeId} {p q : Program}, x.index = n → Siblings base p q →
      TypeMatch base p q x y →
      Agree (Siblings base) (TypeMatch base) (canonicalType x) (canonicalType y) p q from
    key _ rfl hr h
  clear hr h
  intro n
  induction n using Nat.strongRecOn with
  | _ n ih =>
    rintro x y p q rfl hr h
    have hp := hr.left.derives.le
    obtain ⟨dx, dy, hx, hy, hagree⟩ := h.desc hr.left hr.right
    rw [canonicalType, canonicalType]
    refine agree_ask hx hy ?_
    obtain ⟨hox, hoy⟩ | ⟨definition, args, args', hox, hoy, hb, hargs⟩ := hagree.origin
    · rw [hox, hoy]
      exact .pure hr h
    · rw [hox, hoy]
      obtain ⟨⟨original, hd, hdecl, hlen⟩, hne, hlt, hltArgs, -⟩ :=
        (hr.left.wellFormed.type_ok hx).derived hox
      obtain ⟨-, -, -, hltArgs', -⟩ := (hr.right.wellFormed.type_ok hy).derived hoy
      -- the arguments match and are older than the instances
      have hall : List.Forall₂ (fun a b => TypeMatch base p q a b ∧ a.index < x.index ∧
          b.index < y.index) args args' :=
        (forall₂_and_mem hargs).imp fun a b h => ⟨h.2, hltArgs a h.1.1, hltArgs' b h.1.2⟩
      refine ((Agree.mapM (W := TypeMatch base) (P := fun s t a b => TypeMatch base s t a b ∧
        a.index < x.index ∧ b.index < y.index) (fun h hs ht => ⟨h.1.mono hs ht, h.2⟩)
        (typeMatch_lasting base) (fun hs ht hr h => ?_) hr hall).and_left
        length_of_mapM).bind fun {canonical canonical' _ _} hs ht hr hcanon => ?_
      · obtain ⟨hab, hlt, hlt'⟩ := h
        obtain ⟨da, db, ha, hb, hagree⟩ := hab.desc hr.left hr.right
        refine agree_ask ha hb ?_
        rw [hagree.isValueType_eq, dif_pos hlt, dif_pos hlt']
        split
        · exact ih _ hlt rfl hr hab
        · exact .pure hr (.same hr.left.hasType_canon)
      · obtain ⟨hcanon, hlength⟩ := hcanon
        have hargs := hargs.imp fun _ _ h => h.mono hs ht
        have hiff := hr.forall₂_eq_iff hcanon hargs
        by_cases hsame : canonical = args
        · rw [if_pos hsame, if_pos (hiff.1 hsame)]
          exact .pure hr (h.mono hs ht)
        · rw [if_neg hsame, if_neg fun h => hsame (hiff.2 h)]
          refine internType_agrees hr (typeDesc_of_le hp hb hd) hdecl (hlen.trans hlength.symm) ?_
            hcanon
          rintro rfl
          exact hne (List.length_eq_zero_iff.1 hlength.symm)

/-- Canonical arguments of matching arguments match. -/
theorem canonicalArgument_agrees (hr : Siblings base p q) {x y : TypeId}
    (h : TypeMatch base p q x y) :
    Agree (Siblings base) (TypeMatch base) (canonicalArgument x) (canonicalArgument y) p q := by
  obtain ⟨dx, dy, hx, hy, hagree⟩ := h.desc hr.left hr.right
  refine agree_ask hx hy ?_
  rw [hagree.isValueType_eq]
  split
  · exact canonicalType_agrees hr h
  · exact .pure hr (.same hr.left.hasType_canon)

/-- Canonical methods of matching methods match. -/
theorem canonicalMethod_agrees (hr : Siblings base p q) {x y : MethodId}
    (h : MethodMatch base p q x y) :
    Agree (Siblings base) (MethodMatch base) (canonicalMethod x) (canonicalMethod y) p q := by
  obtain ⟨dx, dy, hx, hy, hagree⟩ := h.desc hr.left hr.right
  refine agree_ask hx hy ?_
  obtain ⟨hox, hoy⟩ | ⟨kind, hox, hoy⟩ | ⟨definition, definition', args, args', hox, hoy, hdef,
    hargs⟩ := hagree.origin
  · rw [hox, hoy]
    exact .pure hr h
  · rw [hox, hoy]
    exact .pure hr h
  · rw [hox, hoy]
    obtain ⟨-, -, original, hd, hnone, -⟩ := (hr.left.wellFormed.method_ok hx).derived hox
    refine (canonicalType_agrees hr hagree.owner).bind fun {owner owner' _ _} hs ht hr howner => ?_
    have hargs := hargs.imp fun _ _ h => h.mono hs ht
    refine (Agree.mapM (P := TypeMatch base) (W := TypeMatch base) (typeMatch_lasting base)
      (typeMatch_lasting base) (fun _ _ hr h => canonicalArgument_agrees hr h) hr hargs).bind
      fun {canonical canonical' _ _} hs' ht' hr hcanon => ?_
    have howner := howner.mono hs' ht'
    have hargs := hargs.imp fun _ _ h => h.mono hs' ht'
    have hs := hs.trans hs'
    have ht := ht.trans ht'
    have hiff : (owner = dx.owner ∧ canonical = args) ↔ (owner' = dy.owner ∧ canonical' = args') :=
      and_congr (hr.type_eq_iff howner (hagree.owner.mono hs ht)) (hr.forall₂_eq_iff hcanon hargs)
    by_cases hsame : owner = dx.owner ∧ canonical = args
    · rw [if_pos hsame, if_pos (hiff.1 hsame)]
      exact .pure hr (h.mono hs ht)
    · rw [if_neg hsame, if_neg fun h => hsame (hiff.2 h)]
      refine internMethod_agrees hr (hdef.mono hs ht) (fun hfound => ?_) howner hcanon
      cases (methodDesc_stable _ _ _ hd _ hs).symm.trans hfound
      exact hnone

/-! ## Instances -/

/-- The counterparts of matching methods on matching types match. -/
theorem methodOnType_agrees (hr : Siblings base p q) {x y : MethodId} {type type' : TypeId}
    (h : MethodMatch base p q x y) (htype : TypeMatch base p q type type') :
    Agree (Siblings base) (MethodMatch base) (methodOnType x type) (methodOnType y type') p q := by
  obtain ⟨hp, hq⟩ := hr
  obtain ⟨dx, dy, hx, hy, hagree⟩ := h.desc hp hq
  have hdef := hagree.definition h
  obtain ⟨ox, oy, hox, hoy, hhome⟩ := hdef.desc hp hq
  obtain ⟨t, t', ht, ht', rfl, hb⟩ := htype.typeDefinition hp hq
  refine agree_ask hx hy (agree_ask hox hoy (agree_ask ht ht' ?_))
  have hiff : t = ox.owner ↔ t = oy.owner :=
    Siblings.type_eq_iff ⟨hp, hq⟩ (.same hb) hhome.owner
  by_cases hsame : t = ox.owner
  · rw [if_pos hsame, if_pos (hiff.1 hsame)]
    exact internMethod_agrees ⟨hp, hq⟩ hdef (hp.wellFormed.definition?_getD hx) htype hagree.args
  · rw [if_neg hsame, if_neg fun h => hsame (hiff.2 h)]
    obtain ⟨method, hm, hm'⟩ := h.methodName hp hq
    obtain ⟨name, hn, hn'⟩ := htype.typeName hp hq
    exact agree_ask hm hm' (agree_ask hn hn' (.throw ⟨hp, hq⟩))

/-- Matching types applied to matching arguments match. -/
theorem instantiateType_agrees (hr : Siblings base p q) {x y : TypeId} {args args' : List TypeId}
    (h : TypeMatch base p q x y) (hargs : List.Forall₂ (TypeMatch base p q) args args') :
    Agree (Siblings base) (TypeMatch base) (instantiateType x args) (instantiateType y args')
      p q := by
  obtain ⟨dx, dy, hx, hy, hagree⟩ := h.desc hr.left hr.right
  have hgeneric : dx.isGenericDefinition = dy.isGenericDefinition := hagree.isGenericDefinition_eq
  have harity : dx.genericArity = dy.genericArity :=
    congrArg TypeDeclaration.genericArity hagree.declaration
  have hname : dx.name = dy.name := congrArg TypeDeclaration.name hagree.declaration
  refine agree_ask hx hy ?_
  rw [hgeneric, harity, hargs.length_eq]
  split
  · next hcond =>
    obtain ⟨hpos, hdecl⟩ := isGenericDefinition_iff.1 (hgeneric.trans hcond.1)
    have hb := hr.left.hasType_of_declared hx hdecl
    obtain rfl := h.eq_of_base hb
    refine internType_agrees hr (hr.left.typeDesc_base hb hx) hdecl ?_ ?_ hargs
    · rw [harity, hcond.2, hargs.length_eq]
    · rintro rfl
      rw [hargs.length_eq.symm] at hcond
      simp_all
  · rw [hname, hagree.definition?_eq]
    exact .throw hr

/-- Matching methods with matching arguments match. -/
theorem instantiateMethod_agrees (hr : Siblings base p q) {x y : MethodId}
    {args args' : List TypeId} (h : MethodMatch base p q x y)
    (hargs : List.Forall₂ (TypeMatch base p q) args args') :
    Agree (Siblings base) (MethodMatch base) (instantiateMethod x args)
      (instantiateMethod y args') p q := by
  obtain ⟨dx, dy, hx, hy, hagree⟩ := h.desc hr.left hr.right
  obtain ⟨name, hn, hn'⟩ := h.methodName hr.left hr.right
  have harity : dx.genericArity = dy.genericArity :=
    hagree.congr MethodDeclaration.genericArity fun _ _ => rfl
  refine agree_ask hx hy ?_
  have hargsOf : dx.args ≠ [] ↔ dy.args ≠ [] := by
    rw [← List.isEmpty_eq_false_iff, ← List.isEmpty_eq_false_iff, hagree.isEmpty_args]
  by_cases hempty : dx.args ≠ []
  · rw [if_pos hempty, if_pos (hargsOf.1 hempty)]
    exact agree_ask hn hn' (.throw hr)
  · rw [if_neg hempty, if_neg fun h => hempty (hargsOf.2 h), harity, hargs.length_eq]
    split
    · exact agree_ask hn hn' (.throw hr)
    · exact internMethod_agrees hr (hagree.definition h)
        (hr.left.wellFormed.definition?_getD hx) hagree.owner hargs

end ProgramM

/-! ## Delegates -/

/-- What is known of two delegate types is the same, with thunks that match. -/
structure DelegateInfo.Match (base p q : Program) (info info' : DelegateInfo) : Prop where
  invokeArity : info.invokeArity = info'.invokeArity
  openStatic : Program.MethodMatch base p q info.openStatic info'.openStatic
  closedStatic : Program.MethodMatch base p q info.closedStatic info'.closedStatic
  reverseNative? : Option.Rel (Program.MethodMatch base p q) info.reverseNative?
    info'.reverseNative?

theorem DelegateInfo.Match.thunk? {base p q : Program} {info info' : DelegateInfo}
    (h : info.Match base p q info') (kind : InvokeThunk) :
    Option.Rel (Program.MethodMatch base p q) (info.thunk? kind) (info'.thunk? kind) := by
  cases kind with
  | openStatic => exact .some h.openStatic
  | closedStatic => exact .some h.closedStatic
  | reverseNative => exact h.reverseNative?

namespace ProgramM

open Program

variable {base p q : Program}

/-- The definition of a type is declared by the base, as the same type for all that match. -/
theorem exists_typeDefinition (hr : Siblings base p q) {x y : TypeId}
    (h : TypeMatch base p q x y) : ∃ definition desc, p.typeDefinition x = .ok definition ∧
      q.typeDefinition y = .ok definition ∧ base.typeDesc definition = .ok desc ∧
      desc.origin = .declared := by
  obtain ⟨dx, dy, hx, hy, hagree⟩ := h.desc hr.left hr.right
  obtain ⟨definition, definition', hd, hd', rfl, hb⟩ := h.typeDefinition hr.left hr.right
  obtain ⟨desc, hdesc⟩ := hasType_iff.1 hb
  refine ⟨definition, desc, hd, hd', hdesc, ?_⟩
  rw [typeDefinition, hx] at hd
  cases ho : dx.origin with
  | declared =>
    obtain rfl : x = definition := by
      simpa [TypeDesc.definition?, ho, bind, Except.bind, pure, Except.pure] using hd
    cases hx.symm.trans (typeDesc_stable _ _ _ hdesc _ hr.left.derives.le)
    exact ho
  | derived found args =>
    obtain rfl : found = definition := by
      simpa [TypeDesc.definition?, ho, bind, Except.bind, pure, Except.pure] using hd
    obtain ⟨⟨original, horig, hdecl, -⟩, -⟩ := (hr.left.wellFormed.type_ok hx).derived ho
    cases horig.symm.trans (typeDesc_stable _ _ _ hdesc _ hr.left.derives.le)
    exact hdecl

/-- Matching types have matching delegate information. -/
theorem delegateInfo_agrees (hr : Siblings base p q) {x y : TypeId} (h : TypeMatch base p q x y) :
    Agree (Siblings base) (DelegateInfo.Match base) (delegateInfo x) (delegateInfo y) p q := by
  obtain ⟨definition, desc, hd, hd', hdesc, hdecl⟩ := exists_typeDefinition hr h
  refine agree_ask hd hd' (agree_ask (typeDesc_stable _ _ _ hdesc _ hr.left.derives.le)
    (typeDesc_stable _ _ _ hdesc _ hr.right.derives.le) ?_)
  cases harity : desc.invokeArity? with
  | none => exact .throw hr
  | some arity =>
    refine (internThunk_agrees hr hdesc hdecl harity .openStatic).bind
      fun _ _ hr hopen => ?_
    refine (internThunk_agrees hr hdesc hdecl harity .closedStatic).bind
      fun hs₂ ht₂ hr hclosed => ?_
    dsimp only
    split
    · refine ((internThunk_agrees hr hdesc hdecl harity .reverseNative).map
        (W := fun s t => Option.Rel (MethodMatch base s t)) fun _ _ _ h => .some h).bind
        fun hs₃ ht₃ hr hrev => ?_
      exact .pure hr
        ⟨rfl, hopen.mono (hs₂.trans hs₃) (ht₂.trans ht₃), hclosed.mono hs₃ ht₃, hrev⟩
    · exact .pure hr ⟨rfl, hopen.mono hs₂ ht₂, hclosed, .none⟩

end ProgramM

end NativeImage
