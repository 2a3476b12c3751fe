import NativeImage.Proofs.Program.DistinctNames
import NativeImage.Proofs.Symbol.Decoding

/-!
# Reading display names

The name of an instance shows its definition and the names of its arguments, and the name of a
method its owner, the method and its arguments. Where definitions have plain names, brackets, commas
and colons show where each part ends, however deeply arguments are nested. So a name gives back the
definition and the arguments' names.

An argument is shown by its name alone, without its module. Two instances of one definition can
therefore have the same name, and nothing but that makes types or methods of one name.

## Main definitions

- `ReadsApart` — texts that can be told from what follows them
- `Program.Shows`, `Program.MethodShows` — what the names of types and methods are made of
- `Program.entityName` — what the symbols of an entity are made from

## Main statements

- `Program.typeName_readsApart` — names of types, before more text
- `Program.entitySymbol_inj` — symbols tell types and methods apart
- `Program.methodSymbol_split` — symbols of methods, before more text
- `Program.TypesDistinct.instances` — where instances have different names
-/

namespace NativeImage

open NativeImage.Symbol

/-! ## Lists of arguments -/

/-- What stands behind the name of a type where it is part of a longer name. -/
def Closes (r : List Char) : Prop := ∀ c ∈ r.head?, c = ',' ∨ c = '>' ∨ c = ':'

theorem closes_nil : Closes [] := nofun

/-- Texts that differ, or end at the same place. -/
def ReadsApart (n n' : List Char) : Prop :=
  ∀ r r', Closes r → Closes r' → n ++ r = n' ++ r' → n = n' ∧ r = r'

/-- Arguments as they are shown; nothing if there are none. -/
def argumentText : List String → List Char
  | [] => []
  | name :: names => '<' :: ([','].intercalate ((name :: names).map String.toList) ++ ['>'])

/-- Texts that can be told from what follows them can be told apart in a list, and so can the end of
the list. -/
theorem intercalate_append_inj {names names' : List (List Char)} {r r' : List Char}
    (hread : ∀ n ∈ names, ∀ n' ∈ names', ReadsApart n n')
    (hne : names ≠ []) (hne' : names' ≠ [])
    (h : [','].intercalate names ++ '>' :: r = [','].intercalate names' ++ '>' :: r') :
    names = names' ∧ r = r' := by
  have hcomma (more : List Char) : Closes (',' :: more) := by
    intro c hc
    cases hc
    exact .inl rfl
  have hend (more : List Char) : Closes ('>' :: more) := by
    intro c hc
    cases hc
    exact .inr (.inl rfl)
  -- behind a shown argument stands a comma or the bracket, so the lists end at the same place
  induction names generalizing names' with
  | nil => exact absurd rfl hne
  | cons n ns ih =>
    cases names' with
    | nil => exact absurd rfl hne'
    | cons n' ns' =>
      have hread₁ := hread n List.mem_cons_self n' List.mem_cons_self
      cases ns with
      | nil =>
        cases ns' with
        | nil =>
          simp only [List.intercalate_singleton] at h
          obtain ⟨rfl, hr⟩ := hread₁ _ _ (hend r) (hend r') h
          exact ⟨rfl, List.tail_eq_of_cons_eq hr⟩
        | cons m' ms' =>
          simp only [List.intercalate_singleton, List.intercalate_cons_cons, List.append_assoc,
            List.singleton_append] at h
          cases List.head_eq_of_cons_eq (hread₁ _ _ (hend r) (hcomma _) h).2
      | cons m ms =>
        cases ns' with
        | nil =>
          simp only [List.intercalate_singleton, List.intercalate_cons_cons, List.append_assoc,
            List.singleton_append] at h
          cases List.head_eq_of_cons_eq (hread₁ _ _ (hcomma _) (hend r') h).2
        | cons m' ms' =>
          simp only [List.intercalate_cons_cons, List.append_assoc, List.singleton_append] at h
          obtain ⟨rfl, hrest⟩ := hread₁ _ _ (hcomma _) (hcomma _) h
          obtain ⟨hnames, hr⟩ := ih (fun n hn n' hn' => hread n (List.mem_cons_of_mem _ hn) n'
            (List.mem_cons_of_mem _ hn')) (List.cons_ne_nil _ _) (List.cons_ne_nil _ _)
            (List.tail_eq_of_cons_eq hrest)
          exact ⟨congrArg _ hnames, hr⟩

/-- Arguments can be told from what follows them, unless that is another list. -/
theorem argumentText_append_inj {names names' : List String} {r r' : List Char}
    (hread : ∀ n ∈ names, ∀ n' ∈ names', ReadsApart n.toList n'.toList)
    (hr : r.head? ≠ some '<') (hr' : r'.head? ≠ some '<')
    (h : argumentText names ++ r = argumentText names' ++ r') : names = names' ∧ r = r' := by
  cases names with
  | nil =>
    cases names' with
    | nil => exact ⟨rfl, h⟩
    | cons n' ns' =>
      refine absurd ?_ hr
      rw [show r = _ from h]
      rfl
  | cons n ns =>
    cases names' with
    | nil =>
      refine absurd ?_ hr'
      rw [← show _ = r' from h]
      rfl
    | cons n' ns' =>
      have hlists : ∀ x ∈ (n :: ns).map String.toList, ∀ x' ∈ (n' :: ns').map String.toList,
          ReadsApart x x' := by
        intro x hx x' hx'
        obtain ⟨name, hname, rfl⟩ := List.mem_map.1 hx
        obtain ⟨name', hname', rfl⟩ := List.mem_map.1 hx'
        exact hread name hname name' hname'
      simp only [argumentText, List.cons_append, List.append_assoc, List.nil_append] at h
      obtain ⟨hnames, hrest⟩ := intercalate_append_inj hlists (List.cons_ne_nil _ _)
        (List.cons_ne_nil _ _) (List.tail_eq_of_cons_eq h)
      exact ⟨List.map_injective_iff.2 (fun _ _ h => String.toList_injective h) hnames, hrest⟩

/-- Behind the name of a definition nothing of it follows. -/
theorem head?_argumentText_append {names : List String} {r : List Char}
    (hr : ∀ c ∈ r.head?, isTypeNameChar c = false) :
    ∀ c ∈ (argumentText names ++ r).head?, isTypeNameChar c = false := by
  cases names with
  | nil => exact hr
  | cons name names =>
    intro c hc
    cases hc
    rfl

theorem Closes.not_isTypeNameChar {r : List Char} (h : Closes r) :
    ∀ c ∈ r.head?, isTypeNameChar c = false := by
  intro c hc
  rcases h c hc with rfl | rfl | rfl <;> decide

theorem Closes.head?_ne {r : List Char} (h : Closes r) : r.head? ≠ some '<' := by
  intro hhead
  rcases h '<' hhead with heq | heq | heq <;> cases heq

namespace Program

variable {p : Program}

/-! ## Names of types -/

theorem typeName_eq_ok {id : TypeId} {name : String} :
    p.typeName id = .ok name ↔ ∃ desc, p.typeDesc id = .ok desc ∧ desc.name = name := by
  rw [typeName]
  cases p.typeDesc id with
  | ok desc => simp [bind, Except.bind, pure, Except.pure]
  | error e => simp [bind, Except.bind]

/-- The names of types, one by one. -/
def Named (p : Program) (args : List TypeId) (names : List String) : Prop :=
  List.Forall₂ (fun arg name => p.typeName arg = .ok name) args names

theorem named_iff {args : List TypeId} {names : List String} :
    p.Named args names ↔ args.mapM p.typeName = .ok names := by
  constructor
  · intro h
    induction h with
    | nil => rfl
    | cons hname _ ih =>
      rw [List.mapM_cons, hname, ih]
      rfl
  · intro h
    induction args generalizing names with
    | nil =>
      cases h
      exact .nil
    | cons arg args ih =>
      rw [List.mapM_cons] at h
      cases hname : p.typeName arg with
      | error e =>
        rw [hname] at h
        cases h
      | ok name =>
        cases hnames : args.mapM p.typeName with
        | error e =>
          rw [hname, hnames] at h
          cases h
        | ok rest =>
          rw [hname, hnames] at h
          cases h
          exact .cons hname (ih hnames)

theorem argumentList_eq_ok {args : List TypeId} {list : String} (hne : args ≠ []) :
    p.argumentList args = .ok list → ∃ names, p.Named args names ∧
      list.toList = argumentText names := by
  intro h
  rw [argumentList] at h
  cases hnames : args.mapM p.typeName with
  | error e =>
    rw [hnames] at h
    cases h
  | ok names =>
    rw [hnames] at h
    cases h
    have hnamed := named_iff.2 hnames
    refine ⟨names, hnamed, ?_⟩
    cases hnamed with
    | nil => exact absurd rfl hne
    | cons => simp [argumentText, String.toList_append, String.toList_intercalate]

/-- What a type shows: the definition, and the names of the arguments. -/
structure Shows (p : Program) (id : TypeId) (desc : TypeDesc) (definition : TypeId)
    (original : TypeDesc) (names : List String) : Prop where
  found : p.typeDesc id = .ok desc
  home : p.typeDefinition id = .ok definition
  original_found : p.typeDesc definition = .ok original
  declared : original.origin = .declared
  module : desc.module = original.module
  args : p.Named desc.args names
  text : desc.name.toList = original.name.toList ++ argumentText names

theorem WellFormed.exists_shows (hp : p.WellFormed) {id : TypeId} {desc : TypeDesc}
    (hd : p.typeDesc id = .ok desc) :
    ∃ definition original names, p.Shows id desc definition original names := by
  cases ho : desc.origin with
  | declared =>
    refine ⟨id, desc, [], hd, ?_, hd, ho, rfl, ?_, (List.append_nil _).symm⟩
    · refine typeDefinition_eq_ok.2 ⟨desc, hd, ?_⟩
      rw [TypeDesc.definition?, ho]
      rfl
    · rw [TypeDesc.args, ho]
      exact .nil
  | derived definition args =>
    obtain ⟨⟨original, horig, hdecl, -⟩, hne, -, -, hinst⟩ := (hp.type_ok hd).derived ho
    obtain ⟨found, list, hf, hlist, hdesc⟩ := typeInstance_eq_ok.1 hinst
    cases horig.symm.trans hf
    obtain ⟨names, hnames, htext⟩ := argumentList_eq_ok hne hlist
    refine ⟨definition, original, names, hd, ?_, horig, hdecl, ?_, ?_, ?_⟩
    · refine typeDefinition_eq_ok.2 ⟨desc, hd, ?_⟩
      rw [TypeDesc.definition?, ho]
      rfl
    · rw [hdesc]
    · rwa [TypeDesc.args, ho]
    · rw [hdesc, ← htext, String.toList_append]

/-- Arguments are older than the type. -/
theorem WellFormed.arg_lt (hp : p.WellFormed) {id : TypeId} {desc : TypeDesc}
    (hd : p.typeDesc id = .ok desc) : ∀ arg ∈ desc.args, arg.index < id.index := by
  intro arg harg
  rw [TypeDesc.args] at harg
  split at harg
  · cases harg
  · next ho =>
    obtain ⟨-, -, -, hlt, -⟩ := (hp.type_ok hd).derived ho
    exact hlt arg harg

theorem Named.exists_arg {args : List TypeId} {names : List String} (h : p.Named args names)
    {name : String} (hname : name ∈ names) :
    ∃ arg ∈ args, ∃ desc, p.typeDesc arg = .ok desc ∧ desc.name = name := by
  obtain ⟨arg, harg, hx⟩ := exists_mem_of_forall₂ h hname
  exact ⟨arg, harg, typeName_eq_ok.1 hx⟩

/-- Types whose names agree as far as both go show definitions of one name, and the same names of
arguments, and their names end at the same place. -/
theorem Shows.append_inj (hp : p.WellFormed) (hplain : p.NamesPlain) {x y d d' : TypeId}
    {dx dy original original' : TypeDesc} {names names' : List String}
    (h : p.Shows x dx d original names) (h' : p.Shows y dy d' original' names') {r r' : List Char}
    (hr : Closes r) (hr' : Closes r') (heq : dx.name.toList ++ r = dy.name.toList ++ r') :
    original.name = original'.name ∧ names = names' ∧ r = r' := by
  -- on the handle of one of the two types: the other one may be any
  induction hn : x.index using Nat.strongRecOn generalizing x y dx dy d d' original original' names
    names' r r' with
  | _ n ih =>
    subst hn
    rw [h.text, h'.text, List.append_assoc, List.append_assoc] at heq
    obtain ⟨horiginal, hrest⟩ := run_append_inj (hplain.type h.original_found h.declared)
      (hplain.type h'.original_found h'.declared)
      (head?_argumentText_append hr.not_isTypeNameChar)
      (head?_argumentText_append hr'.not_isTypeNameChar) heq
    -- arguments are older, so their names can be told from what follows them
    have hread : ∀ n ∈ names, ∀ n' ∈ names', ReadsApart n.toList n'.toList := by
      intro n hn n' hn' r r' hr hr' heq
      obtain ⟨arg, harg, da, ha, rfl⟩ := h.args.exists_arg hn
      obtain ⟨arg', -, da', ha', rfl⟩ := h'.args.exists_arg hn'
      obtain ⟨_, o, _, hshows⟩ := hp.exists_shows ha
      obtain ⟨_, o', _, hshows'⟩ := hp.exists_shows ha'
      obtain ⟨ho, hnames, hrest⟩ := ih _ (hp.arg_lt h.found arg harg) hshows hshows' hr hr' heq rfl
      exact ⟨by rw [hshows.text, hshows'.text, ho, hnames], hrest⟩
    obtain ⟨hnames, hr⟩ := argumentText_append_inj hread hr.head?_ne hr'.head?_ne hrest
    exact ⟨String.toList_injective horiginal, hnames, hr⟩

theorem Shows.inj (hp : p.WellFormed) (hplain : p.NamesPlain) {x y d d' : TypeId}
    {dx dy original original' : TypeDesc} {names names' : List String}
    (h : p.Shows x dx d original names) (h' : p.Shows y dy d' original' names')
    (hname : dx.name = dy.name) : original.name = original'.name ∧ names = names' := by
  have heq : dx.name.toList ++ [] = dy.name.toList ++ [] := by rw [hname]
  obtain ⟨horiginal, hnames, -⟩ := h.append_inj hp hplain h' closes_nil closes_nil heq
  exact ⟨horiginal, hnames⟩

/-- Names of types can be told from what follows them. -/
theorem typeName_readsApart (hp : p.WellFormed) (hplain : p.NamesPlain) {x y : TypeId}
    {name name' : String} (hx : p.typeName x = .ok name) (hy : p.typeName y = .ok name') :
    ReadsApart name.toList name'.toList := by
  intro r r' hr hr' heq
  obtain ⟨dx, hdx, rfl⟩ := typeName_eq_ok.1 hx
  obtain ⟨dy, hdy, rfl⟩ := typeName_eq_ok.1 hy
  obtain ⟨_, o, _, hshows⟩ := hp.exists_shows hdx
  obtain ⟨_, o', _, hshows'⟩ := hp.exists_shows hdy
  obtain ⟨ho, hnames, hrest⟩ := hshows.append_inj hp hplain hshows' hr hr' heq
  exact ⟨by rw [hshows.text, hshows'.text, ho, hnames], hrest⟩

/-! ## Names of methods -/

/-- What a method shows: its owner, its name, and the names of the arguments. -/
structure MethodShows (p : Program) (id : MethodId) (desc : MethodDesc) (owner : TypeDesc)
    (names : List String) (name : String) : Prop where
  found : p.methodDesc id = .ok desc
  owner_found : p.typeDesc desc.owner = .ok owner
  args : p.Named desc.args names
  text : name.toList =
    owner.name.toList ++ ':' :: ':' :: (desc.name.toList ++ argumentText names)

theorem exists_methodShows {id : MethodId} {name : String} (h : p.methodName id = .ok name) :
    ∃ desc owner names, p.MethodShows id desc owner names name := by
  rw [methodName] at h
  cases hd : p.methodDesc id with
  | error e =>
    rw [hd] at h
    cases h
  | ok desc =>
    rw [hd] at h
    cases howner : p.typeName desc.owner with
    | error e =>
      simp only [bind, Except.bind, howner] at h
      cases h
    | ok ownerName =>
      obtain ⟨owner, ho, rfl⟩ := typeName_eq_ok.1 howner
      simp only [bind, Except.bind, howner] at h
      by_cases hargs : desc.args = []
      · rw [hargs, List.isEmpty_nil, if_pos rfl] at h
        cases h
        refine ⟨desc, owner, [], hd, ho, ?_, ?_⟩
        · rw [hargs]
          exact .nil
        · simp [argumentText, String.toList_append]
      · rw [List.isEmpty_eq_false_iff.2 hargs, if_neg Bool.false_ne_true] at h
        cases hlist : p.argumentList desc.args with
        | error e =>
          rw [hlist] at h
          cases h
        | ok list =>
          obtain ⟨names, hnames, htext⟩ := argumentList_eq_ok hargs hlist
          rw [hlist] at h
          cases h
          refine ⟨desc, owner, names, hd, ho, hnames, ?_⟩
          simp [← htext, String.toList_append]

/-- Methods whose names agree as far as both go show owners of one name, methods of one name and the
same names of arguments, and their names end at the same place. -/
theorem MethodShows.append_inj (hp : p.WellFormed) (hplain : p.NamesPlain) {x y : MethodId}
    {dx dy : MethodDesc} {owner owner' : TypeDesc} {names names' : List String}
    {name name' : String} (h : p.MethodShows x dx owner names name)
    (h' : p.MethodShows y dy owner' names' name') (r r' : List Char)
    (hr : ∀ c ∈ r.head?, ¬ (c.isAlphanum = true ∨ c = '<'))
    (hr' : ∀ c ∈ r'.head?, ¬ (c.isAlphanum = true ∨ c = '<'))
    (heq : name.toList ++ r = name'.toList ++ r') :
    owner.name = owner'.name ∧ dx.name = dy.name ∧ names = names' ∧ r = r' := by
  have hcolon (more : List Char) : Closes (':' :: more) := by
    intro c hc
    cases hc
    exact .inr (.inr rfl)
  have hafter {names : List String} {r : List Char}
      (hr : ∀ c ∈ r.head?, ¬ (c.isAlphanum = true ∨ c = '<')) :
      ∀ c ∈ (argumentText names ++ r).head?, c.isAlphanum = false := by
    cases names with
    | nil => exact fun c hc => Bool.eq_false_iff.2 fun halnum => hr c hc (.inl halnum)
    | cons =>
      intro c hc
      cases hc
      rfl
  have hopen {r : List Char} (hr : ∀ c ∈ r.head?, ¬ (c.isAlphanum = true ∨ c = '<')) :
      r.head? ≠ some '<' := fun hhead => hr '<' hhead (.inr rfl)
  -- from the left: the owner up to the colons, the name up to the bracket, then the arguments
  rw [h.text, h'.text] at heq
  simp only [List.append_assoc, List.cons_append] at heq
  obtain ⟨howner, hrest⟩ := typeName_readsApart hp hplain (typeName_eq_ok.2 ⟨_, h.owner_found, rfl⟩)
    (typeName_eq_ok.2 ⟨_, h'.owner_found, rfl⟩) _ _ (hcolon _) (hcolon _) heq
  obtain ⟨hname, hargs⟩ := run_append_inj (hplain.method hp h.found) (hplain.method hp h'.found)
    (hafter hr) (hafter hr') (List.tail_eq_of_cons_eq (List.tail_eq_of_cons_eq hrest))
  have hread : ∀ n ∈ names, ∀ n' ∈ names', ReadsApart n.toList n'.toList := by
    intro n hn n' hn'
    obtain ⟨arg, -, da, ha, rfl⟩ := h.args.exists_arg hn
    obtain ⟨arg', -, da', ha', rfl⟩ := h'.args.exists_arg hn'
    exact typeName_readsApart hp hplain (typeName_eq_ok.2 ⟨_, ha, rfl⟩)
      (typeName_eq_ok.2 ⟨_, ha', rfl⟩)
  obtain ⟨hnames, hr⟩ := argumentText_append_inj hread (hopen hr) (hopen hr') hargs
  exact ⟨String.toList_injective howner, String.toList_injective hname, hnames, hr⟩

/-- Where the name of one method goes on behind that of another, it does so with a letter, a digit
or arguments. -/
theorem methodName_goOnWith (hp : p.WellFormed) (hplain : p.NamesPlain) {x y : MethodId}
    {name name' : String} (hx : p.methodName x = .ok name) (hy : p.methodName y = .ok name') :
    GoOnWith (fun c => c.isAlphanum = true ∨ c = '<') name.toList name'.toList := by
  obtain ⟨dx, owner, names, h⟩ := exists_methodShows hx
  obtain ⟨dy, owner', names', h'⟩ := exists_methodShows hy
  -- otherwise what one name goes on with could follow the other one, and both would end there
  constructor
  · intro c cs heq
    by_contra hc
    obtain ⟨-, -, -, hnil⟩ := h.append_inj hp hplain h' [] (c :: cs) nofun
      (by rintro c ⟨⟩; exact hc) (by rw [List.append_nil, heq])
    cases hnil
  · intro c cs heq
    by_contra hc
    obtain ⟨-, -, -, hnil⟩ := h.append_inj hp hplain h' (c :: cs) []
      (by rintro c ⟨⟩; exact hc) nofun (by rw [List.append_nil, heq])
    cases hnil

/-! ## Names tell entities apart -/

/-- What symbols of a type or method are made from. -/
def entityName (p : Program) : Entity → Except ProgramError EntityName
  | .method id => p.methodEntity id
  | .type id => p.typeEntity id

theorem entitySymbol_eq_ok {family : SymbolFamily} {entity : Entity} {symbol : String} :
    p.entitySymbol family entity = .ok symbol ↔
      ∃ name, p.entityName entity = .ok name ∧ family.symbol name = symbol := by
  cases entity with
  | method id =>
    rw [entitySymbol, methodSymbol, entityName]
    cases p.methodEntity id <;> simp [bind, Except.bind, pure, Except.pure]
  | type id =>
    rw [entitySymbol, typeSymbol, entityName]
    cases p.typeEntity id <;> simp [bind, Except.bind, pure, Except.pure]

/-- What has no arguments is a definition. -/
theorem Shows.definition? (hp : p.WellFormed) {x d : TypeId} {dx original : TypeDesc}
    {names : List String} (h : p.Shows x dx d original names) :
    dx.definition? = if names = [] then none else some d := by
  have hargs : names = [] ↔ dx.args = [] := by
    have hlen := List.Forall₂.length_eq h.args
    rw [← List.length_eq_zero_iff, ← hlen, List.length_eq_zero_iff]
  obtain ⟨found, hf, hgetD⟩ := typeDefinition_eq_ok.1 h.home
  cases h.found.symm.trans hf
  cases ho : dx.origin with
  | declared =>
    rw [if_pos (hargs.2 (by rw [TypeDesc.args, ho])), TypeDesc.definition?, ho]
  | derived definition args =>
    obtain ⟨-, hne, -⟩ := (hp.type_ok h.found).derived ho
    have hdef : dx.definition? = some definition := by rw [TypeDesc.definition?, ho]
    rw [hdef, Option.getD_some] at hgetD
    rw [if_neg fun hnil => hne ?_, hdef, hgetD]
    rw [TypeDesc.args, ho] at hargs
    exact hargs.1 hnil

/-- A type that shows no arguments is its own definition. -/
theorem Shows.eq_definition (hp : p.WellFormed) {x d : TypeId} {dx original : TypeDesc}
    (h : p.Shows x dx d original []) : x = d := by
  obtain ⟨found, hf, hgetD⟩ := typeDefinition_eq_ok.1 h.home
  cases h.found.symm.trans hf
  rwa [h.definition? hp, if_pos rfl, Option.getD_none] at hgetD

/-- Arguments that have the same names are the same, if names tell them apart. -/
theorem Named.inj {args args' : List TypeId} {names : List String} (h : p.Named args names)
    (h' : p.Named args' names) (hinj : ∀ arg ∈ args, ∀ arg' name, p.typeName arg = .ok name →
      p.typeName arg' = .ok name → arg = arg') : args = args' := by
  induction h generalizing args' with
  | nil =>
    cases h'
    rfl
  | cons hname hrest ih =>
    cases h' with
    | cons hname' hrest' =>
      rw [hinj _ List.mem_cons_self _ _ hname hname',
        ih hrest' fun arg harg => hinj arg (List.mem_cons_of_mem _ harg)]

namespace TypesDistinct

variable (htypes : p.TypesDistinct) (hp : p.WellFormed) (hplain : p.NamesPlain)
include htypes hp hplain

/-- If no two modules declare types of one name, then types are told apart by their names alone. -/
theorem typeName_inj {x y : TypeId} {name : String} (hx : p.typeName x = .ok name)
    (hy : p.typeName y = .ok name) : x = y := by
  induction hn : x.index using Nat.strongRecOn generalizing x y name with
  | _ n ih =>
    subst hn
    obtain ⟨dx, hdx, hnamex⟩ := typeName_eq_ok.1 hx
    obtain ⟨dy, hdy, hnamey⟩ := typeName_eq_ok.1 hy
    obtain ⟨d, original, names, h⟩ := hp.exists_shows hdx
    obtain ⟨d', original', names', h'⟩ := hp.exists_shows hdy
    obtain ⟨horiginal, rfl⟩ := h.inj hp hplain h' (hnamex.trans hnamey.symm)
    obtain rfl : d = d' :=
      htypes.type h.original_found h'.original_found h.declared h'.declared horiginal
    have hargs : dx.args = dy.args := h.args.inj h'.args fun arg harg arg' name hx hy =>
      ih _ (hp.arg_lt hdx arg harg) hx hy rfl
    by_cases hnil : names = []
    · subst hnil
      rw [h.eq_definition hp, h'.eq_definition hp]
    · have horigin {z : TypeId} {dz o : TypeDesc} (h : p.Shows z dz d o names) :
          dz.origin = .derived d dz.args := by
        have hdef := h.definition? hp
        rw [if_neg hnil, TypeDesc.definition?] at hdef
        rw [TypeDesc.args]
        split at hdef
        · cases hdef
        · cases hdef
          next ho => rw [ho]
      refine hp.type_unique hdx hdy ?_ ?_
      · rw [horigin h, horigin h', hargs]
      · intro hdeclared
        cases (horigin h).symm.trans hdeclared

end TypesDistinct

/-- An instance differs from its definition in the owner or the number of arguments. -/
theorem not_instance_alike (hp : p.WellFormed) {x y : MethodId} {dx dy : MethodDesc}
    (hx : p.methodDesc x = .ok dx) (hy : p.methodDesc y = .ok dy) (hnone : dx.definition? = none)
    (hdef : dy.definition? = some x) (howner : dy.owner = dx.owner)
    (hargs : dy.args = dx.args) : False := by
  obtain ⟨-, -, original, horig, -, -, hself⟩ :=
    (hp.method_ok hy).derived (origin_of_definition? hdef)
  cases hx.symm.trans horig
  exact hself ⟨howner, hargs.trans (args_of_definition?_eq_none hnone)⟩

/-- Where methods are declared on definitions only, methods of one owner that have the same name are
instances of one definition. -/
theorem NamesDistinct.original_eq (hnames : p.NamesDistinct) (hp : p.WellFormed)
    (howners : p.MethodsOnDefinitions) (hhome : p.AtHome) {x y : MethodId} {dx dy : MethodDesc}
    (hx : p.methodDesc x = .ok dx) (hy : p.methodDesc y = .ok dy) (howner : dx.owner = dy.owner)
    (hname : dx.name = dy.name) : dx.definition?.getD x = dy.definition?.getD y := by
  obtain ⟨ox, hox, hnx, hnamex⟩ := hp.exists_original_name hx
  obtain ⟨oy, hoy, hny, hnamey⟩ := hp.exists_original_name hy
  -- a definition's owner is its own home, so the definitions have one owner
  obtain ⟨home, hhx, hhy⟩ : p.SameHome ox.owner oy.owner :=
    (hhome.original hp hx hox).symm.trans (howner ▸ hhome.original hp hy hoy)
  have hownerx : ox.owner = home := Except.ok.inj ((howners.owner hp hox hnx).symm.trans hhx)
  have hownery : oy.owner = home := Except.ok.inj ((howners.owner hp hoy hny).symm.trans hhy)
  exact hnames.method hp hox hoy hnx hny (hownerx.trans hownery.symm)
    (hnamex.symm.trans (hname.trans hnamey))

/-- If no two modules declare types of one name and methods are declared on definitions only, then
instances have different names. -/
theorem TypesDistinct.instances (htypes : p.TypesDistinct) (hp : p.WellFormed)
    (hplain : p.NamesPlain) (hnames : p.NamesDistinct) (howners : p.MethodsOnDefinitions)
    (hhome : p.AtHome) : p.InstancesDistinct := by
  constructor
  · intro i j _ _ hname
    have hfound (i : Fin p.types.size) : p.typeName ⟨i⟩ = .ok p.types[i].name :=
      typeName_eq_ok.2 ⟨_, typeDesc_fin i, rfl⟩
    have heq := htypes.typeName_inj hp hplain (hfound i) (hname ▸ hfound j)
    exact Fin.ext (congrArg TypeId.index heq)
  · intro i j hne howner hname hargs
    have hx := methodDesc_fin i
    have hy := methodDesc_fin j
    obtain ⟨names, hlist, -⟩ := mapM_of_forall₂ (f := p.typeName) (g := p.typeName)
      (List.forall₂_same.2 fun arg harg =>
        (exists_typeName (hp.hasType_methodArgs hx arg harg)).imp fun _ hn => ⟨hn, hn⟩)
    have hsame : p.methods[i].args = p.methods[j].args :=
      (named_iff.2 hlist).inj (named_iff.2 (hargs ▸ hlist))
        fun arg _ arg' name hx hy => htypes.typeName_inj hp hplain hx hy
    have hdefs := hnames.original_eq hp howners hhome hx hy howner hname
    obtain ⟨definition, hd⟩ := Option.ne_none_iff_exists'.1 hne
    rw [hd, Option.getD_some] at hdefs
    cases hd' : p.methods[j].definition? with
    | none =>
      rw [hd', Option.getD_none] at hdefs
      exact (not_instance_alike hp hy hx hd' (hdefs ▸ hd) howner hsame).elim
    | some definition' =>
      obtain rfl : definition = definition' := by rw [hdefs, hd', Option.getD_some]
      have hox := origin_of_definition? hd
      have hderived : p.methods[i].origin ≠ .declared := by
        intro hdeclared
        cases hox.symm.trans hdeclared
      have heq := hp.method_unique hx hy (by rw [hox, origin_of_definition? hd', hsame]) howner
        hderived
      exact Fin.ext (congrArg MethodId.index heq)

variable (hp : p.WellFormed) (hplain : p.NamesPlain) (hnames : p.NamesDistinct)
  (hinstances : p.InstancesDistinct)
include hp hplain hnames hinstances

/-- Types of one module that have the same name are the same. -/
theorem type_eq_of_name {x y : TypeId} {dx dy : TypeDesc} (hx : p.typeDesc x = .ok dx)
    (hy : p.typeDesc y = .ok dy) (hmodule : dx.module = dy.module) (hname : dx.name = dy.name) :
    x = y := by
  obtain ⟨d, original, names, h⟩ := hp.exists_shows hx
  obtain ⟨d', original', names', h'⟩ := hp.exists_shows hy
  obtain ⟨horiginal, rfl⟩ := h.inj hp hplain h' hname
  obtain rfl : d = d' := hnames.type h.original_found h'.original_found h.declared h'.declared
    (h.module.symm.trans (hmodule.trans h'.module)) horiginal
  have hdef := h.definition? hp
  have hdef' := h'.definition? hp
  by_cases hnil : names = []
  · subst hnil
    rw [h.eq_definition hp, h'.eq_definition hp]
  · rw [if_neg hnil] at hdef hdef'
    exact hinstances.type hx hy (by rw [hdef]; exact Option.some_ne_none d) (hdef.trans hdef'.symm)
      hname

/-- Methods whose owners are in one module and that have the same name are the same. -/
theorem method_eq_of_name {x y : MethodId} {name : String} {dx dy : MethodDesc}
    {owner owner' : TypeDesc} {names names' : List String}
    (h : p.MethodShows x dx owner names name) (h' : p.MethodShows y dy owner' names' name)
    (hmodule : owner.module = owner'.module) : x = y := by
  obtain ⟨howner, hname, rfl, -⟩ := h.append_inj hp hplain h' [] [] nofun nofun rfl
  have hsame : dx.owner = dy.owner := type_eq_of_name hp hplain hnames hinstances h.owner_found
    h'.owner_found hmodule howner
  have hargs : dx.args.mapM p.typeName = dy.args.mapM p.typeName := by
    rw [named_iff.1 h.args, named_iff.1 h'.args]
  by_cases hdx : dx.definition? = none
  · by_cases hdy : dy.definition? = none
    · exact hnames.method hp h.found h'.found hdx hdy hsame hname
    · exact (hinstances.method h'.found h.found hdy hsame.symm hname.symm hargs.symm).symm
  · exact hinstances.method h.found h'.found hdx hsame hname hargs

omit hp hplain hnames hinstances in
theorem exists_of_typeEntity {id : TypeId} {entity : EntityName}
    (h : p.typeEntity id = .ok entity) : ∃ desc home, p.typeDesc id = .ok desc ∧
      p.moduleDesc desc.module = .ok home ∧ entity = ⟨home.name, desc.name⟩ := by
  simp only [typeEntity, moduleOfType, typeName] at h
  cases hd : p.typeDesc id with
  | error e =>
    rw [hd] at h
    cases h
  | ok desc =>
    simp only [hd, bind, Except.bind, pure, Except.pure] at h
    cases hm : p.moduleDesc desc.module with
    | error e =>
      rw [hm] at h
      cases h
    | ok home =>
      rw [hm] at h
      cases h
      exact ⟨desc, home, rfl, hm, rfl⟩

omit hp hplain hnames hinstances in
theorem exists_of_methodEntity {id : MethodId} {entity : EntityName}
    (h : p.methodEntity id = .ok entity) : ∃ desc owner home names name,
      p.MethodShows id desc owner names name ∧ p.moduleDesc owner.module = .ok home ∧
        p.methodName id = .ok name ∧ entity = ⟨home.name, name⟩ := by
  cases hname : p.methodName id with
  | error e =>
    simp only [methodEntity, hname, bind, Except.bind] at h
    split at h
    · cases h
    · split at h <;> cases h
  | ok name =>
    obtain ⟨desc, owner, names, hshows⟩ := exists_methodShows hname
    simp only [methodEntity, moduleOfMethod, moduleOfType, hshows.found, hshows.owner_found, hname,
      bind, Except.bind, pure, Except.pure] at h
    cases hm : p.moduleDesc owner.module with
    | error e =>
      rw [hm] at h
      cases h
    | ok home =>
      rw [hm] at h
      cases h
      exact ⟨desc, owner, home, names, name, hshows, hm, rfl, rfl⟩

/-- What symbols of a type or method are made from tells which one it is. -/
theorem entity_eq_of_name {x y : Entity} {name : EntityName}
    (hx : p.entityName x = .ok name) (hy : p.entityName y = .ok name) : x = y := by
  have hmixed {x : TypeId} {y : MethodId} (hx : p.typeEntity x = .ok name)
      (hy : p.methodEntity y = .ok name) : False := by
    obtain ⟨dx, home, hdx, -, rfl⟩ := exists_of_typeEntity hx
    obtain ⟨dy, owner, home', names, shown, hshows, -, -, heq⟩ := exists_of_methodEntity hy
    have htext : dx.name.toList ++ [] = owner.name.toList ++
        ':' :: ':' :: (dy.name.toList ++ argumentText names) := by
      rw [List.append_nil, ← hshows.text]
      exact congrArg (fun entity => entity.display.toList) heq
    -- no type shows a colon
    obtain ⟨-, hnil⟩ := typeName_readsApart hp hplain (typeName_eq_ok.2 ⟨_, hdx, rfl⟩)
      (typeName_eq_ok.2 ⟨_, hshows.owner_found, rfl⟩) _ _ closes_nil
      (by rintro c ⟨⟩; exact .inr (.inr rfl)) htext
    cases hnil
  cases x with
  | type x =>
    cases y with
    | method y => exact (hmixed hx hy).elim
    | type y =>
      obtain ⟨dx, home, hdx, hmx, rfl⟩ := exists_of_typeEntity hx
      obtain ⟨dy, home', hdy, hmy, heq⟩ := exists_of_typeEntity hy
      have hmodule := hnames.module hmx hmy (congrArg EntityName.moduleName heq)
      rw [type_eq_of_name hp hplain hnames hinstances hdx hdy hmodule
        (congrArg EntityName.display heq)]
  | method x =>
    cases y with
    | type y => exact (hmixed hy hx).elim
    | method y =>
      obtain ⟨dx, owner, home, names, shown, hshows, hmx, -, rfl⟩ := exists_of_methodEntity hx
      obtain ⟨dy, owner', home', names', shown', hshows', hmy, -, heq⟩ :=
        exists_of_methodEntity hy
      have hmodule := hnames.module hmx hmy (congrArg EntityName.moduleName heq)
      obtain rfl : shown = shown' := congrArg EntityName.display heq
      rw [method_eq_of_name hp hplain hnames hinstances hshows hshows' hmodule]

/-- Symbols of types and methods tell them apart. -/
theorem entitySymbol_inj {family family' : SymbolFamily} {x y : Entity}
    {symbol : String} (hx : p.entitySymbol family x = .ok symbol)
    (hy : p.entitySymbol family' y = .ok symbol) : family = family' ∧ x = y := by
  obtain ⟨name, hname, rfl⟩ := entitySymbol_eq_ok.1 hx
  obtain ⟨name', hname', heq⟩ := entitySymbol_eq_ok.1 hy
  obtain ⟨rfl, rfl⟩ := SymbolFamily.symbol_inj heq
  exact ⟨rfl, entity_eq_of_name hp hplain hnames hinstances hname hname'⟩

/-- Symbols of methods tell them apart also before text that starts with `_`. -/
theorem methodSymbol_split {family family' : SymbolFamily} {x y : MethodId}
    {symbol symbol' : String} (hx : p.methodSymbol family x = .ok symbol)
    (hy : p.methodSymbol family' y = .ok symbol') {r r' : List Char}
    (hr : ∀ c ∈ r.head?, c = '_') (hr' : ∀ c ∈ r'.head?, c = '_')
    (heq : symbol.toList ++ r = symbol'.toList ++ r') : family = family' ∧ x = y ∧ r = r' := by
  obtain ⟨name, hname, rfl⟩ :=
    entitySymbol_eq_ok.1 (show p.entitySymbol family (.method x) = _ from hx)
  obtain ⟨name', hname', rfl⟩ :=
    entitySymbol_eq_ok.1 (show p.entitySymbol family' (.method y) = _ from hy)
  have hn : GoOnWith (fun c => c.isAlphanum = true ∨ c = '<') name.display.toList
      name'.display.toList := by
    obtain ⟨_, _, _, _, _, -, -, hshown, rfl⟩ := exists_of_methodEntity hname
    obtain ⟨_, _, _, _, _, -, -, hshown', rfl⟩ := exists_of_methodEntity hname'
    exact methodName_goOnWith hp hplain hshown hshown'
  obtain ⟨rfl, rfl, hrest⟩ := SymbolFamily.symbol_split (by decide) hn hr hr' heq
  cases entity_eq_of_name hp hplain hnames hinstances hname hname'
  exact ⟨rfl, rfl, hrest⟩

end Program

end NativeImage
