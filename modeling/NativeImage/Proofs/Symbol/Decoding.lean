import Mathlib.Algebra.Ring.Nat
import Mathlib.Data.List.Basic
import NativeImage.Symbol.Name

/-!
# Reading symbols back

Escapes of three widths, segments behind their lengths and the labels of families share one
alphabet, and nothing ends a part but the part itself. Still, each part can be told from whatever
follows it. So the symbol of a node gives back its family, the module and the display name of its
entity.

## Main definitions

- `Symbol.IsSymbolChar` — what symbols consist of
- `Symbol.readChar?` — the character whose code stands at the front of a text
- `Symbol.Stops` — a text at which a name of certain characters is at its end

## Main statements

- `Symbol.readChar?_encodeChar` — codes of characters read back
- `Symbol.encodeIdentifier_append_inj`, `Symbol.encodeModule_append_inj` — names, before more text
- `SymbolFamily.symbol_append_inj` — symbols of entities, before more text
- `SymbolFamily.symbol_decodable` — symbols of entities
-/

namespace NativeImage

/-! ## Hexadecimal numbers -/

namespace Hex

/-- The number of a run of digits. -/
def read? (text : List Char) : Option Nat :=
  text.foldlM (fun sofar c => (value? c).map (16 * sofar + ·)) 0

theorem read?_digits {width value : Nat} (h : value < 16 ^ width) :
    read? (digits width value) = some value := by
  induction width generalizing value with
  | zero =>
    rw [Nat.pow_zero] at h
    obtain rfl : value = 0 := by omega
    rfl
  | succ width ih =>
    have hdiv : value / 16 < 16 ^ width := by
      rw [Nat.pow_succ] at h
      omega
    have hdigit := value?_digit (Nat.mod_lt value (y := 16) (by decide))
    have hjoin : 16 * (value / 16) + value % 16 = value := Nat.div_add_mod value 16
    rw [digits, read?, List.foldlM_append, ← read?, ih hdiv]
    simp [hdigit, hjoin]

/-- What is tested of all digits holds of every digit. -/
theorem digit_of_forall {P : Char → Prop} (h : ∀ value : Fin 16, P (digit value))
    {value : Nat} (hlt : value < 16) : P (digit value) := h ⟨value, hlt⟩

theorem forall_mem_digits {P : Char → Prop} (h : ∀ value : Fin 16, P (digit value))
    (width value : Nat) : ∀ c ∈ digits width value, P c := by
  induction width generalizing value with
  | zero => exact nofun
  | succ width ih =>
    rw [digits, List.forall_mem_append, List.forall_mem_singleton]
    exact ⟨ih _, digit_of_forall h (Nat.mod_lt _ (by decide))⟩

end Hex

namespace Symbol

/-! ## Characters of symbols -/

/-- ASCII letters and digits, underscore and dollar sign. -/
def IsSymbolChar (c : Char) : Prop := c.isAlphanum = true ∨ c = '_' ∨ c = '$'

instance (c : Char) : Decidable (IsSymbolChar c) :=
  inferInstanceAs (Decidable (_ ∨ _ ∨ _))

/-- All punctuation with an escape of its own. -/
def punctuationMarks : List Char := ['.', '<', '>', ',', ':', '[', ']', '\x60']

theorem mem_punctuationMarks {c : Char} {code : Char × Char} (h : punctuation? c = some code) :
    c ∈ punctuationMarks := by
  by_contra hne
  simp only [punctuationMarks, List.mem_cons, List.not_mem_nil, or_false, not_or] at hne
  simp [punctuation?, hne] at h

/-- The punctuation that two capitals stand for. -/
def unpunctuate? (first second : Char) : Option Char :=
  punctuationMarks.find? fun c => punctuation? c == some (first, second)

/-- The capitals are symbol characters, stand for one mark only and start no number. -/
theorem punctuation?_spec {c first second : Char} (h : punctuation? c = some (first, second)) :
    IsSymbolChar first ∧ IsSymbolChar second ∧ first ≠ 'U' ∧
      unpunctuate? first second = some c := by
  have hall : punctuationMarks.all (fun c => (punctuation? c).all fun code =>
      IsSymbolChar code.1 ∧ IsSymbolChar code.2 ∧ code.1 ≠ 'U' ∧
        unpunctuate? code.1 code.2 = some c) = true := by decide
  have hcode := List.all_eq_true.1 hall c (mem_punctuationMarks h)
  rw [h, Option.all_some, decide_eq_true_iff] at hcode
  exact hcode

theorem unpunctuate?_digit {value : Nat} (h : value < 16) (second : Char) :
    unpunctuate? (Hex.digit value) second = none := by
  have hall : ∀ value : Fin 16, punctuationMarks.all (fun c => (punctuation? c).all fun code =>
      code.1 ≠ Hex.digit value) = true := by decide
  refine List.find?_eq_none.2 fun c hc hfound => ?_
  rw [beq_iff_eq] at hfound
  have hcode := List.all_eq_true.1 (hall ⟨value, h⟩) c hc
  rw [hfound, Option.all_some, decide_eq_true_iff] at hcode
  exact hcode rfl

theorem isSymbolChar_of_all {text : List Char} (h : text.all (IsSymbolChar ·) = true) :
    ∀ c ∈ text, IsSymbolChar c := by
  simpa using h

theorem isSymbolChar_of_mem_digits (width value : Nat) :
    ∀ c ∈ Hex.digits width value, IsSymbolChar c :=
  Hex.forall_mem_digits (P := IsSymbolChar) (by decide) width value

theorem isSymbolChar_of_mem_escapeHex (c : Char) : ∀ x ∈ escapeHex c, IsSymbolChar x := by
  rw [escapeHex]
  split
  · exact List.forall_mem_cons.2 ⟨by decide, isSymbolChar_of_mem_digits _ _⟩
  · refine List.forall_mem_cons.2 ⟨by decide, List.forall_mem_cons.2 ⟨by decide, ?_⟩⟩
    exact isSymbolChar_of_mem_digits _ _

theorem isSymbolChar_of_mem_encodeChar (c : Char) : ∀ x ∈ encodeChar c, IsSymbolChar x := by
  rw [encodeChar]
  split
  · next hplain =>
    rw [isPlain, Bool.or_eq_true, beq_iff_eq] at hplain
    exact List.forall_mem_singleton.2 (hplain.imp_right .inl)
  · rw [escapeChar]
    split
    · next first second hcode =>
      obtain ⟨hfirst, hsecond, -, -⟩ := punctuation?_spec hcode
      exact List.forall_mem_cons.2 ⟨by decide,
        List.forall_mem_cons.2 ⟨hfirst, List.forall_mem_singleton.2 hsecond⟩⟩
    · exact isSymbolChar_of_mem_escapeHex c

theorem isSymbolChar_of_mem_encodeIdentifier (name : List Char) :
    ∀ x ∈ encodeIdentifier name, IsSymbolChar x := by
  intro x hx
  obtain ⟨c, -, hc⟩ := List.mem_flatMap.1 hx
  exact isSymbolChar_of_mem_encodeChar c x hc

theorem isSymbolChar_of_mem_encodeSegment (segment : List Char) :
    ∀ x ∈ encodeSegment segment, IsSymbolChar x := by
  cases segment with
  | nil => exact nofun
  | cons c rest =>
    refine List.forall_mem_append.2 ⟨?_, isSymbolChar_of_mem_encodeIdentifier rest⟩
    split
    · exact isSymbolChar_of_mem_escapeHex c
    · exact isSymbolChar_of_mem_encodeChar c

theorem isDigit_of_mem_toDigits {n : Nat} {c : Char} (h : c ∈ Nat.toDigits 10 n) :
    c.isDigit = true :=
  Nat.isDigit_of_mem_toDigits (by decide) (by decide) h

theorem isSymbolChar_of_mem_encodeModule (name : List Char) :
    ∀ x ∈ encodeModule name, IsSymbolChar x := by
  intro x hx
  obtain ⟨segment, -, hx⟩ := List.mem_flatMap.1 hx
  rcases List.mem_append.1 hx with hlength | hsegment
  · refine .inl ?_
    rw [Char.isAlphanum, isDigit_of_mem_toDigits hlength, Bool.or_true]
  · exact isSymbolChar_of_mem_encodeSegment segment x hsegment

/-! ## Codes of characters -/

/-- The character of the escape whose `$` has been read, and what stands behind it. -/
def readEscape? : List Char → Option (Char × List Char)
  | [] => none
  | first :: rest =>
    if first = 'U' then
      (Hex.read? (rest.take 6)).map fun code => (Char.ofNat code, rest.drop 6)
    else match rest with
      | [] => none
      | second :: after =>
        match unpunctuate? first second with
        | some c => some (c, after)
        | none => (Hex.read? [first, second]).map fun code => (Char.ofNat code, after)

/-- The character whose code stands at the front, and what stands behind the code. -/
def readChar? : List Char → Option (Char × List Char)
  | [] => none
  | c :: rest =>
    if c = '$' then readEscape? rest else if isPlain c then some (c, rest) else none

theorem readChar?_escapeHex (c : Char) (rest : List Char) :
    readChar? (escapeHex c ++ rest) = some (c, rest) := by
  rw [escapeHex]
  split
  -- two digits or six: the first of two is never the letter that announces six
  · next hsmall =>
    have hlt : c.toNat < 16 ^ 2 := by omega
    have hread := Hex.read?_digits hlt
    have hhigh : c.toNat / 16 % 16 < 16 := Nat.mod_lt _ (by decide)
    have hne : Hex.digit (c.toNat / 16 % 16) ≠ 'U' :=
      Hex.digit_of_forall (P := (· ≠ 'U')) (by decide) hhigh
    have hdigits : Hex.digits 2 c.toNat =
        [Hex.digit (c.toNat / 16 % 16), Hex.digit (c.toNat % 16)] := rfl
    rw [hdigits] at hread ⊢
    simp only [List.cons_append, List.nil_append, readChar?, readEscape?, if_pos, if_neg hne,
      unpunctuate?_digit hhigh, hread, Option.map_some, Char.ofNat_toNat]
  · have hlt : c.toNat < 16 ^ 6 := by
      have hvalid : c.toNat.isValidChar := c.valid
      rcases hvalid with h | h <;> omega
    have hlength : (Hex.digits 6 c.toNat).length = 6 := Hex.length_digits 6 c.toNat
    simp only [List.cons_append, readChar?, readEscape?, if_pos, List.take_left' hlength,
      List.drop_left' hlength, Hex.read?_digits hlt, Option.map_some, Char.ofNat_toNat]

/-- The code of a character can be read back, whatever follows it. -/
theorem readChar?_encodeChar (c : Char) (rest : List Char) :
    readChar? (encodeChar c ++ rest) = some (c, rest) := by
  rw [encodeChar]
  split
  · next hplain =>
    have hne : c ≠ '$' := by
      rintro rfl
      exact absurd hplain (by decide)
    rw [List.singleton_append, readChar?, if_neg hne, if_pos hplain]
  · rw [escapeChar]
    split
    · next first second hcode =>
      obtain ⟨-, -, hne, hback⟩ := punctuation?_spec hcode
      simp only [List.cons_append, List.nil_append, readChar?, readEscape?, if_pos, if_neg hne,
        hback]
    · exact readChar?_escapeHex c rest

/-! ## Names -/

/-- No code of a character with the property stands at the front. -/
def Stops (p : Char → Prop) (text : List Char) : Prop :=
  ∀ c rest, readChar? text = some (c, rest) → ¬ p c

theorem stops_nil (p : Char → Prop) : Stops p [] := nofun

/-- Of two names neither goes on where the other ends, but with a character with the property. -/
def GoOnWith (p : Char → Prop) (xs ys : List Char) : Prop :=
  (∀ c cs, xs = ys ++ c :: cs → p c) ∧ ∀ c cs, ys = xs ++ c :: cs → p c

theorem goOnWith_true (xs ys : List Char) : GoOnWith (fun _ => True) xs ys :=
  ⟨fun _ _ _ => trivial, fun _ _ _ => trivial⟩

/-- A name ends where no code of a character follows with which it could go on. -/
theorem encodeIdentifier_append_inj {p : Char → Prop} {xs ys r r' : List Char}
    (hxy : GoOnWith p xs ys) (hr : Stops p r) (hr' : Stops p r')
    (h : encodeIdentifier xs ++ r = encodeIdentifier ys ++ r') : xs = ys ∧ r = r' := by
  have hfront (c : Char) (cs r : List Char) :
      readChar? (encodeIdentifier (c :: cs) ++ r) = some (c, encodeIdentifier cs ++ r) := by
    rw [encodeIdentifier, List.flatMap_cons, List.append_assoc, readChar?_encodeChar]
    rfl
  -- reading one character at the front removes one from both names, until one of them ends
  induction xs generalizing ys with
  | nil =>
    cases ys with
    | nil => exact ⟨rfl, h⟩
    | cons y ys =>
      have hread : readChar? r = _ := (congrArg readChar? h).trans (hfront y ys r')
      exact absurd (hxy.2 y ys rfl) (hr _ _ hread)
  | cons x xs ih =>
    cases ys with
    | nil =>
      have hread : readChar? r' = _ := (congrArg readChar? h.symm).trans (hfront x xs r)
      exact absurd (hxy.1 x xs rfl) (hr' _ _ hread)
    | cons y ys =>
      have hread := (hfront x xs r).symm.trans ((congrArg readChar? h).trans (hfront y ys r'))
      rw [Option.some.injEq, Prod.mk.injEq] at hread
      obtain ⟨rfl, hrest⟩ := hread
      obtain ⟨rfl, rfl⟩ := ih ⟨fun c cs hc => hxy.1 c cs (congrArg (x :: ·) hc),
        fun c cs hc => hxy.2 c cs (congrArg (x :: ·) hc)⟩ hrest
      exact ⟨rfl, rfl⟩

theorem encodeIdentifier_inj {xs ys : List Char} (h : encodeIdentifier xs = encodeIdentifier ys) :
    xs = ys := by
  refine (encodeIdentifier_append_inj (goOnWith_true xs ys) (stops_nil _) (stops_nil _) ?_).1
  rw [h]

/-! ## Module names -/

theorem segments_eq_splitOn (name : List Char) : segments name = name.splitOn '.' := by
  induction name with
  | nil => rfl
  | cons c rest ih =>
    rw [segments, List.splitOn_cons_eq_if_modifyHead, ih]
    by_cases hc : c = '.'
    · rw [if_pos hc, if_pos (beq_iff_eq.2 hc)]
    · rw [if_neg hc, if_neg (mt beq_iff_eq.1 hc)]
      cases hparts : rest.splitOn '.' with
      | nil => exact absurd hparts (List.splitOn_ne_nil _ _)
      | cons part parts => rfl

/-- A name is its segments with dots between them. -/
theorem segments_inj {name name' : List Char} (h : segments name = segments name') :
    name = name' := by
  rw [segments_eq_splitOn, segments_eq_splitOn] at h
  calc name = ['.'].intercalate (name.splitOn '.') := (List.intercalate_splitOn '.').symm
    _ = ['.'].intercalate (name'.splitOn '.') := by rw [h]
    _ = name' := List.intercalate_splitOn '.'

/-- A segment starts with the code of its first character, whether or not that is a digit. -/
theorem readChar?_encodeSegment (c : Char) (rest more : List Char) :
    readChar? (encodeSegment (c :: rest) ++ more) = some (c, encodeIdentifier rest ++ more) := by
  rw [encodeSegment, List.append_assoc]
  split
  · exact readChar?_escapeHex c _
  · exact readChar?_encodeChar c _

theorem encodeSegment_inj {segment segment' : List Char}
    (h : encodeSegment segment = encodeSegment segment') : segment = segment' := by
  have hnil (c : Char) (rest : List Char) : encodeSegment (c :: rest) ≠ [] := by
    intro hnil
    have hread := readChar?_encodeSegment c rest []
    rw [hnil] at hread
    cases hread
  cases segment with
  | nil =>
    cases segment' with
    | nil => rfl
    | cons c rest => exact absurd h.symm (hnil c rest)
  | cons c rest =>
    cases segment' with
    | nil => exact absurd h (hnil c rest)
    | cons c' rest' =>
      have hread := readChar?_encodeSegment c rest []
      rw [h, readChar?_encodeSegment, Option.some.injEq, Prod.mk.injEq, List.append_nil,
        List.append_nil] at hread
      rw [hread.1, encodeIdentifier_inj hread.2]

/-- No encoded segment starts with a digit. -/
theorem head?_encodeSegment (segment more : List Char) (hne : segment ≠ []) :
    ∀ c ∈ (encodeSegment segment ++ more).head?, c.isDigit = false := by
  cases segment with
  | nil => exact absurd rfl hne
  | cons c rest =>
    rw [encodeSegment]
    split
    · rw [escapeHex]
      split <;> exact fun c hc => by cases hc; rfl
    · next hdigit =>
      rw [encodeChar]
      split
      · intro x hx
        cases hx
        exact Bool.eq_false_iff.2 hdigit
      · rw [escapeChar, escapeHex]
        split <;> [skip; split] <;> exact fun c hc => by cases hc; rfl

/-- Where a run of characters with a property ends can be seen at the next character. -/
theorem run_append_inj {p : Char → Bool} {run run' r r' : List Char}
    (hrun : ∀ c ∈ run, p c = true) (hrun' : ∀ c ∈ run', p c = true)
    (hr : ∀ c ∈ r.head?, p c = false) (hr' : ∀ c ∈ r'.head?, p c = false)
    (h : run ++ r = run' ++ r') : run = run' ∧ r = r' := by
  have htake {run r : List Char} (hrun : ∀ c ∈ run, p c = true)
      (hr : ∀ c ∈ r.head?, p c = false) : (run ++ r).takeWhile p = run := by
    rw [List.takeWhile_append_of_pos hrun]
    cases r with
    | nil => rw [List.takeWhile_nil, List.append_nil]
    | cons c rest => rw [List.takeWhile_cons, hr c rfl, if_neg (by decide), List.append_nil]
  -- both runs are what `takeWhile` takes from the one text
  obtain rfl : run = run' := by rw [← htake hrun hr, h, htake hrun' hr']
  exact ⟨rfl, List.append_cancel_left h⟩

theorem toDigits_inj {n m : Nat} (h : Nat.toDigits 10 n = Nat.toDigits 10 m) : n = m := by
  rw [← Nat.ofDigitChars_ten_toDigits (n := n), h, Nat.ofDigitChars_ten_toDigits]

/-- A length other than zero does not start with the digit zero. -/
theorem head?_toDigits_ne_zero {n : Nat} (h : 0 < n) : (Nat.toDigits 10 n).head? ≠ some '0' := by
  induction n using Nat.strongRecOn with
  | _ n ih =>
    by_cases hlt : n < 10
    · rw [Nat.toDigits_of_lt_base hlt, List.head?_cons, Ne, Option.some.injEq,
        Nat.digitChar_eq_zero]
      omega
    · have hfirst := ih (n / 10) (by omega) (by omega)
      rw [Nat.toDigits_of_base_le (by decide) (by omega),
        List.head?_append_of_ne_nil _ Nat.toDigits_ne_nil]
      exact hfirst

theorem encodeCounted_nil : encodeCounted [] = ['0'] := by
  rw [encodeCounted, encodeSegment, List.append_nil, List.length_nil, Nat.toDigits_zero]

/-- A segment behind its length can be told from whatever follows it. -/
theorem encodeCounted_append_inj {segment segment' r r' : List Char}
    (h : encodeCounted segment ++ r = encodeCounted segment' ++ r') :
    segment = segment' ∧ r = r' := by
  have hpos {segment : List Char} (hne : segment ≠ []) : 0 < (encodeSegment segment).length := by
    refine List.length_pos_iff.2 fun hnil => hne (encodeSegment_inj ?_)
    rw [hnil]
    rfl
  -- the length zero can be told at its only digit, which is the first of no other length
  have hzero {segment : List Char} (hne : segment ≠ []) {r r' : List Char} :
      encodeCounted [] ++ r ≠ encodeCounted segment ++ r' := by
    intro h
    have hhead := congrArg List.head? h
    rw [encodeCounted_nil, encodeCounted, List.append_assoc,
      List.head?_append_of_ne_nil _ Nat.toDigits_ne_nil] at hhead
    exact head?_toDigits_ne_zero (hpos hne) hhead.symm
  by_cases hnil : segment = []
  · subst hnil
    by_cases hnil' : segment' = []
    · subst hnil'
      exact ⟨rfl, List.append_cancel_left h⟩
    · exact absurd h (hzero hnil')
  · by_cases hnil' : segment' = []
    · subst hnil'
      exact absurd h.symm (hzero hnil)
    · rw [encodeCounted, encodeCounted, List.append_assoc, List.append_assoc] at h
      obtain ⟨hlength, hrest⟩ := run_append_inj (p := Char.isDigit)
        (fun c hc => isDigit_of_mem_toDigits hc) (fun c hc => isDigit_of_mem_toDigits hc)
        (head?_encodeSegment segment r hnil) (head?_encodeSegment segment' r' hnil') h
      obtain ⟨hsegment, hr⟩ := List.append_inj hrest (toDigits_inj hlength)
      exact ⟨encodeSegment_inj hsegment, hr⟩

/-- The module part ends at the first `$` behind a whole segment. -/
theorem encodeModule_append_inj {name name' r r' : List Char}
    (h : encodeModule name ++ '$' :: r = encodeModule name' ++ '$' :: r') :
    name = name' ∧ r = r' := by
  have hdollar {segment more r : List Char} : '$' :: r ≠ encodeCounted segment ++ more := by
    intro h
    have hhead := congrArg List.head? h
    rw [encodeCounted, List.append_assoc,
      List.head?_append_of_ne_nil _ Nat.toDigits_ne_nil] at hhead
    exact absurd (isDigit_of_mem_toDigits (List.mem_of_mem_head? hhead.symm)) (by decide)
  -- on the segments, since the induction does not go through on names
  suffices key : ∀ {parts parts' : List (List Char)},
      parts.flatMap encodeCounted ++ '$' :: r = parts'.flatMap encodeCounted ++ '$' :: r' →
        parts = parts' ∧ r = r' by
    obtain ⟨hparts, hr⟩ := key h
    exact ⟨segments_inj hparts, hr⟩
  intro parts parts' h
  induction parts generalizing parts' with
  | nil =>
    cases parts' with
    | nil => exact ⟨rfl, List.cons.inj h |>.2⟩
    | cons part' rest' =>
      rw [List.flatMap_cons, List.append_assoc] at h
      exact absurd h hdollar
  | cons part rest ih =>
    cases parts' with
    | nil =>
      rw [List.flatMap_cons, List.append_assoc] at h
      exact absurd h.symm hdollar
    | cons part' rest' =>
      rw [List.flatMap_cons, List.flatMap_cons, List.append_assoc, List.append_assoc] at h
      obtain ⟨rfl, hrest⟩ := encodeCounted_append_inj h
      obtain ⟨rfl, hr⟩ := ih hrest
      exact ⟨rfl, hr⟩

/-- A module part starts with a length, if with anything. -/
theorem head?_encodeModule_ne (name : List Char) : (encodeModule name).head? ≠ some '_' := by
  rw [encodeModule]
  cases segments name with
  | nil => exact nofun
  | cons part rest =>
    rw [List.flatMap_cons, encodeCounted, List.append_assoc,
      List.head?_append_of_ne_nil _ Nat.toDigits_ne_nil]
    intro hhead
    exact absurd (isDigit_of_mem_toDigits (List.mem_of_mem_head? hhead)) (by decide)

end Symbol

/-! ## Entities -/

open NativeImage.Symbol

namespace EntityName

theorem toList_symbol (name : EntityName) : name.symbol.toList = entityMark.toList ++
    (encodeModule name.moduleName.toList ++ '$' :: encodeIdentifier name.display.toList) := by
  rw [symbol, String.toList_append, String.toList_ofList]

/-- An entity's own symbol, behind which its display name does not go on, gives back the entity. -/
theorem symbol_append_inj {p : Char → Prop} {name name' : EntityName} {r r' : List Char}
    (hn : GoOnWith p name.display.toList name'.display.toList) (hr : Stops p r)
    (hr' : Stops p r') (h : name.symbol.toList ++ r = name'.symbol.toList ++ r') :
    name = name' ∧ r = r' := by
  simp only [toList_symbol, List.append_assoc, List.cons_append, List.append_cancel_left_eq] at h
  obtain ⟨hmodule, hrest⟩ := encodeModule_append_inj h
  obtain ⟨hdisplay, rfl⟩ := encodeIdentifier_append_inj hn hr hr' hrest
  refine ⟨?_, rfl⟩
  rw [String.toList_inj] at hmodule hdisplay
  cases name
  cases name'
  exact congrArg₂ EntityName.mk hmodule hdisplay

end EntityName

namespace SymbolFamily

def all : List SymbolFamily :=
  [plain false, plain true, shadow false, shadow true, fatPointer false, fatPointer true,
    dictionary, gcStaticDesc false, gcStaticDesc true, threadStaticsOffset, threadStaticsBlock,
    gcStaticBase, eagerConstructor, staticBaseHelper false, staticBaseHelper true]

theorem mem_all (family : SymbolFamily) : family ∈ all := by
  cases family with
  | plain unboxing | shadow unboxing | fatPointer unboxing => cases unboxing <;> decide
  | gcStaticDesc thread | staticBaseHelper thread => cases thread <;> decide
  | _ => decide

/-- What stands before the module of the entity. -/
def opening (family : SymbolFamily) : List Char := family.label.toList ++ entityMark.toList

theorem toList_symbol (family : SymbolFamily) (name : EntityName) :
    (family.symbol name).toList =
      family.label.toList ++ (name.symbol.toList ++ family.tail.toList) := by
  rw [symbol, String.toList_append, String.toList_append, List.append_assoc]

/-- Behind the opening of its family a symbol does not go on with an underscore. -/
theorem exists_opening (family : SymbolFamily) (name : EntityName) :
    ∃ c rest, (family.symbol name).toList = family.opening ++ c :: rest ∧ c ≠ '_' := by
  rw [toList_symbol, EntityName.toList_symbol, opening]
  simp only [List.append_assoc]
  have hfirst := head?_encodeModule_ne name.moduleName.toList
  cases hmodule : encodeModule name.moduleName.toList with
  | nil => exact ⟨'$', _, rfl, by decide⟩
  | cons c rest =>
    rw [hmodule, List.head?_cons] at hfirst
    exact ⟨c, _, rfl, fun heq => hfirst (congrArg some heq)⟩

/-- No label together with the mark of entities starts another one. -/
theorem label_eq_of_opening {family family' : SymbolFamily}
    (h : family.opening <+: family'.opening) : family.label = family'.label := by
  have hall : ∀ family ∈ all, ∀ family' ∈ all, family.opening <+: family'.opening →
      family.label = family'.label := by decide +kernel
  exact hall _ (mem_all _) _ (mem_all _) h

theorem label_append_inj {family family' : SymbolFamily} {r r' : List Char}
    (h : family.label.toList ++ (entityMark.toList ++ r) =
      family'.label.toList ++ (entityMark.toList ++ r')) : family.label = family'.label := by
  rw [← List.append_assoc, ← List.append_assoc] at h
  have hleft : family.opening <+: family.opening ++ r := List.prefix_append _ _
  have hright : family'.opening <+: family.opening ++ r := ⟨r', h.symm⟩
  rcases List.prefix_or_prefix_of_prefix hleft hright with hprefix | hprefix
  · exact label_eq_of_opening hprefix
  · exact (label_eq_of_opening hprefix).symm

/-- The symbol of an entity's node, behind which the display name does not go on, gives back the
label of the family, and the entity. -/
theorem symbol_append_inj {p : Char → Prop} {family family' : SymbolFamily}
    {name name' : EntityName} {r r' : List Char}
    (hn : GoOnWith p name.display.toList name'.display.toList)
    (hr : Stops p (family.tail.toList ++ r)) (hr' : Stops p (family'.tail.toList ++ r'))
    (h : (family.symbol name).toList ++ r = (family'.symbol name').toList ++ r') :
    family.label = family'.label ∧ name = name' ∧
      family.tail.toList ++ r = family'.tail.toList ++ r' := by
  simp only [toList_symbol, List.append_assoc] at h
  have hlabel : family.label = family'.label := by
    simp only [EntityName.toList_symbol, List.append_assoc] at h
    exact label_append_inj h
  rw [hlabel, List.append_cancel_left_eq] at h
  exact ⟨hlabel, EntityName.symbol_append_inj hn hr hr' h⟩

theorem eq_of_label_of_tail {family family' : SymbolFamily} (hlabel : family.label = family'.label)
    (htail : family.tail = family'.tail) : family = family' := by
  have hall : ∀ family ∈ all, ∀ family' ∈ all, family.label = family'.label →
      family.tail = family'.tail → family = family' := by decide +kernel
  exact hall _ (mem_all _) _ (mem_all _) hlabel htail

/-- No escape starts like the mark of the entry for boxed receivers. -/
theorem stops_tail (family : SymbolFamily) : Stops (fun _ => True) family.tail.toList := by
  have hnone : ∀ family ∈ all, readChar? family.tail.toList = none := by decide +kernel
  intro c rest hread
  rw [hnone family (mem_all family)] at hread
  cases hread

theorem isSymbolChar_of_mem_symbol (family : SymbolFamily) (name : EntityName) :
    ∀ c ∈ (family.symbol name).toList, IsSymbolChar c := by
  have hends : ∀ family ∈ all, family.label.toList.all (IsSymbolChar ·) = true ∧
      family.tail.toList.all (IsSymbolChar ·) = true := by decide +kernel
  obtain ⟨hlabel, htail⟩ := hends family (mem_all family)
  have hmark : entityMark.toList.all (IsSymbolChar ·) = true := by decide
  rw [toList_symbol, EntityName.toList_symbol]
  simp only [List.forall_mem_append, List.forall_mem_cons]
  exact ⟨isSymbolChar_of_all hlabel,
    ⟨isSymbolChar_of_all hmark, isSymbolChar_of_mem_encodeModule _, by decide,
      isSymbolChar_of_mem_encodeIdentifier _⟩, isSymbolChar_of_all htail⟩

/-- Neither that mark nor what starts with `_` goes on with a name, if names do not go on with
`_`. -/
theorem stops_tail_append {p : Char → Prop} (hp : ¬ p '_') (family : SymbolFamily) {r : List Char}
    (hr : ∀ c ∈ r.head?, c = '_') : Stops p (family.tail.toList ++ r) := by
  intro c rest hread
  rw [tail] at hread
  split at hread
  · cases hread
  · cases r with
    | nil => cases hread
    | cons first more =>
      obtain rfl := hr first rfl
      cases hread
      exact hp

/-- Symbols of entities tell apart what they are made from. -/
theorem symbol_inj {family family' : SymbolFamily} {name name' : EntityName}
    (h : family.symbol name = family'.symbol name') : family = family' ∧ name = name' := by
  have hlists : (family.symbol name).toList ++ [] = (family'.symbol name').toList ++ [] := by
    rw [h]
  have hstops (family : SymbolFamily) : Stops (fun _ => True) (family.tail.toList ++ []) := by
    rw [List.append_nil]
    exact family.stops_tail
  obtain ⟨hlabel, hname, htail⟩ :=
    symbol_append_inj (goOnWith_true _ _) (hstops _) (hstops _) hlists
  rw [List.append_nil, List.append_nil, String.toList_inj] at htail
  exact ⟨eq_of_label_of_tail hlabel htail, hname⟩

/-- They also do so before text that starts with `_`. -/
theorem symbol_split {p : Char → Prop} (hp : ¬ p '_') {family family' : SymbolFamily}
    {name name' : EntityName} {r r' : List Char}
    (hn : GoOnWith p name.display.toList name'.display.toList) (hr : ∀ c ∈ r.head?, c = '_')
    (hr' : ∀ c ∈ r'.head?, c = '_')
    (h : (family.symbol name).toList ++ r = (family'.symbol name').toList ++ r') :
    family = family' ∧ name = name' ∧ r = r' := by
  obtain ⟨hlabel, hname, htails⟩ :=
    symbol_append_inj hn (stops_tail_append hp _ hr) (stops_tail_append hp _ hr') h
  -- only the mark of boxed receivers starts with `$`, so both symbols have it or neither
  have hmark {r more : List Char} (hr : ∀ c ∈ r.head?, c = '_') : r ≠ '$' :: more := by
    rintro rfl
    cases hr '$' rfl
  cases hu : family.isUnboxing with
  | true =>
    cases hu' : family'.isUnboxing with
    | true =>
      have htail : family.tail = family'.tail := by rw [tail, tail, hu, hu']
      rw [htail, List.append_cancel_left_eq] at htails
      exact ⟨eq_of_label_of_tail hlabel htail, hname, htails⟩
    | false =>
      rw [tail, tail, hu, hu'] at htails
      exact absurd htails.symm (hmark hr')
  | false =>
    cases hu' : family'.isUnboxing with
    | true =>
      rw [tail, tail, hu, hu'] at htails
      exact absurd htails (hmark hr)
    | false =>
      have htail : family.tail = family'.tail := by rw [tail, tail, hu, hu']
      rw [htail, List.append_cancel_left_eq] at htails
      exact ⟨eq_of_label_of_tail hlabel htail, hname, htails⟩

/-- Symbols of nodes of entities consist of ASCII letters, digits, `_` and `$`, whatever characters
the names have. Two of them are equal only for the same family, entered the same way, and an entity
of the same module name and display name. -/
theorem symbol_decodable (family family' : SymbolFamily) (name name' : EntityName) :
    (∀ c ∈ (family.symbol name).toList, c.isAlphanum = true ∨ c = '_' ∨ c = '$') ∧
    (family.symbol name = family'.symbol name' ↔
      family = family' ∧ family.isUnboxing = family'.isUnboxing ∧
        name.moduleName = name'.moduleName ∧ name.display = name'.display) := by
  refine ⟨isSymbolChar_of_mem_symbol family name, fun h => ?_, ?_⟩
  · obtain ⟨rfl, rfl⟩ := symbol_inj h
    exact ⟨rfl, rfl, rfl, rfl⟩
  · rintro ⟨rfl, -, hmodule, hdisplay⟩
    cases name
    cases name'
    cases hmodule
    cases hdisplay
    rfl

end SymbolFamily

end NativeImage
