import Mathlib.Data.List.Induction
import NativeImage.Proofs.Object.Packing
import NativeImage.Proofs.Object.Placement

/-!
# What comes of a layout

A region is laid out without a gap or not at all. Members are taken in their order and each is put
where the ones before it end, so a layout fails at the first member that does not fit there, or that
would end past the largest 32-bit offset. Where both is the case, the failure is about the
alignment. A region that has been laid out keeps every entry aligned wherever it is loaded, provided
that alignments are powers of two.

## Main definitions

- `RegionLayout.Placeable` — members that can be laid out
- `RegionMember.Refused` — why a member cannot be put behind others

## Main statements

- `RegionLayout.place_concat` — what one more member adds
- `RegionLayout.place_iff` — which members can be placed, and what refuses the others
- `RegionLayout.children_getElem?` — each entry of a layout
- `RegionLayout.build_gapless_or_refused`
-/

namespace NativeImage

/-! ## Conditions -/

/-- Why a member is refused behind members that end at `offset`. -/
inductive RegionMember.Refused (region : String) (alignment offset : Nat)
    (member : RegionMember) : RegionError → Prop
  | misaligned (h : ¬ member.Fits alignment offset) :
    Refused region alignment offset member
      (.misaligned region member.symbol offset member.alignment)
  | overflow (h : member.Fits alignment offset) (hsize : maxWord32 < offset + member.size) :
    Refused region alignment offset member (.overflow region)

namespace RegionMember

variable {α : Type} {x : α} {region : String} {alignment offset : Nat} {member : RegionMember}
  {e : RegionError}

theorem refused_iff : member.Refused region alignment offset e ↔
    ¬ member.Fits alignment offset ∧
        e = .misaligned region member.symbol offset member.alignment ∨
      member.Fits alignment offset ∧ maxWord32 < offset + member.size ∧ e = .overflow region := by
  constructor
  · rintro (h | ⟨h, hsize⟩)
    · exact .inl ⟨h, rfl⟩
    · exact .inr ⟨h, hsize, rfl⟩
  · rintro (⟨h, rfl⟩ | ⟨h, hsize, rfl⟩)
    · exact .misaligned h
    · exact .overflow h hsize

/-- The checks of a member find the reason to refuse it. -/
theorem checks_eq_error : (if ¬ member.Fits alignment offset then
        .error (.misaligned region member.symbol offset member.alignment)
      else if maxWord32 < offset + member.size then .error (.overflow region)
      else .ok x : Except RegionError α) = .error e ↔
    member.Refused region alignment offset e := by
  constructor
  · intro h
    by_cases hfits : member.Fits alignment offset
    · rw [if_neg (not_not_intro hfits)] at h
      by_cases hsize : maxWord32 < offset + member.size
      · rw [if_pos hsize] at h
        cases h
        exact .overflow hfits hsize
      · rw [if_neg hsize] at h
        cases h
    · rw [if_pos hfits] at h
      cases h
      exact .misaligned hfits
  · intro h
    cases h with
    | misaligned hfits => rw [if_pos hfits]
    | overflow hfits hsize => rw [if_neg (not_not_intro hfits), if_pos hsize]

/-- They find none if it fits and ends in reach. -/
theorem checks_eq_ok : (∃ y, (if ¬ member.Fits alignment offset then
        .error (.misaligned region member.symbol offset member.alignment)
      else if maxWord32 < offset + member.size then .error (.overflow region)
      else .ok x : Except RegionError α) = .ok y) ↔
    member.Fits alignment offset ∧ offset + member.size ≤ maxWord32 := by
  by_cases hfits : member.Fits alignment offset
  · by_cases hsize : maxWord32 < offset + member.size
    · simp [hfits, hsize]
    · simp [hfits, hsize, Nat.not_lt.1 hsize]
  · simp [hfits]

end RegionMember

@[simp] theorem totalSize_nil : totalSize [] = 0 := rfl

@[simp] theorem totalSize_concat (members : List RegionMember) (last : RegionMember) :
    totalSize (members ++ [last]) = totalSize members + last.size := by
  simp [totalSize]

/-- A list with one more member is split at that member, or within the others. -/
theorem concat_eq_split {α : Type} {init before after : List α} {last x : α} :
    init ++ [last] = before ++ x :: after ↔
      (before = init ∧ x = last ∧ after = []) ∨
        ∃ rest, init = before ++ x :: rest ∧ after = rest ++ [last] := by
  constructor
  · intro h
    rcases List.eq_nil_or_concat' after with rfl | ⟨rest, y, rfl⟩
    · obtain ⟨rfl, hlast⟩ := List.append_inj' h rfl
      obtain rfl : last = x := by simpa using hlast
      exact .inl ⟨rfl, rfl, rfl⟩
    · rw [← List.cons_append, ← List.append_assoc] at h
      obtain ⟨rfl, hlast⟩ := List.append_inj' h rfl
      obtain rfl : last = y := by simpa using hlast
      exact .inr ⟨rest, rfl, rfl⟩
  · rintro (⟨rfl, rfl, rfl⟩ | ⟨rest, rfl, rfl⟩)
    · rfl
    · simp

namespace RegionLayout

/-- Each member fits where the ones before it end, and the last one ends in reach of a 32-bit
offset. -/
structure Placeable (alignment : Nat) (members : List RegionMember) : Prop where
  fits : ∀ before member after, members = before ++ member :: after →
    member.Fits alignment (totalSize before)
  size : totalSize members ≤ maxWord32

variable {region : String} {alignment : Nat} {init members : List RegionMember}
  {last : RegionMember} {e : RegionError}

theorem placeable_nil (alignment : Nat) : Placeable alignment [] where
  fits before member after h := by simp at h
  size := by simp

theorem placeable_concat : Placeable alignment (init ++ [last]) ↔
    Placeable alignment init ∧ last.Fits alignment (totalSize init) ∧
      totalSize init + last.size ≤ maxWord32 := by
  constructor
  · intro h
    have hsize := h.size
    rw [totalSize_concat] at hsize
    refine ⟨⟨fun before member after hsplit => ?_, by omega⟩, h.fits init last [] rfl, hsize⟩
    apply h.fits before member (after ++ [last])
    simp [hsplit]
  · rintro ⟨hinit, hfits, hsize⟩
    refine ⟨fun before member after hsplit => ?_, by rw [totalSize_concat]; exact hsize⟩
    rcases concat_eq_split.1 hsplit with ⟨rfl, rfl, -⟩ | ⟨rest, hrest, -⟩
    · exact hfits
    · exact hinit.fits before member rest hrest

/-- A list with one more member is refused for one of the others, or for that member if the others
can be placed. -/
theorem refused_concat : (∃ before member after, init ++ [last] = before ++ member :: after ∧
      Placeable alignment before ∧ member.Refused region alignment (totalSize before) e) ↔
    (∃ before member after, init = before ++ member :: after ∧
      Placeable alignment before ∧ member.Refused region alignment (totalSize before) e) ∨
    Placeable alignment init ∧ last.Refused region alignment (totalSize init) e := by
  constructor
  · rintro ⟨before, member, after, hsplit, hbefore, hrefused⟩
    rcases concat_eq_split.1 hsplit with ⟨rfl, rfl, -⟩ | ⟨rest, hrest, -⟩
    · exact .inr ⟨hbefore, hrefused⟩
    · exact .inl ⟨before, member, rest, hrest, hbefore, hrefused⟩
  · rintro (⟨before, member, after, hsplit, hbefore, hrefused⟩ | ⟨hinit, hrefused⟩)
    · exact ⟨before, member, after ++ [last], by simp [hsplit], hbefore, hrefused⟩
    · exact ⟨init, last, [], rfl, hinit, hrefused⟩

/-! ## Placing -/

/-- What one more member adds to members that are placed, or why it is refused. -/
theorem place_concat (region : String) (alignment offset : Nat) (init : List RegionMember)
    (last : RegionMember) : place region alignment offset (init ++ [last]) =
      match place region alignment offset init with
      | .error e => .error e
      | .ok (children, stop) =>
        if ¬ last.Fits alignment stop then
          .error (.misaligned region last.symbol stop last.alignment)
        else if maxWord32 < stop + last.size then
          .error (.overflow region)
        else
          .ok (children ++ [⟨last.node, last.symbol, stop, last.size⟩], stop + last.size) := by
  induction init generalizing offset with
  | nil => rfl
  | cons member rest ih =>
    rw [List.cons_append, place, place]
    by_cases hfits : ¬ member.Fits alignment offset
    · rw [if_pos hfits, if_pos hfits]
    by_cases hsize : maxWord32 < offset + member.size
    · rw [if_neg hfits, if_neg hfits, if_pos hsize, if_pos hsize]
    rw [if_neg hfits, if_neg hfits, if_neg hsize, if_neg hsize, ih]
    cases place region alignment (offset + member.size) rest with
    | error e => rfl
    | ok placed =>
      obtain ⟨children, stop⟩ := placed
      dsimp only
      by_cases hlast : ¬ last.Fits alignment stop
      · simp only [if_pos hlast]
      by_cases hlarge : maxWord32 < stop + last.size
      · simp only [if_neg hlast, if_pos hlarge]
      · simp only [if_neg hlast, if_neg hlarge]
        rfl

/-- Entries are as large as what they have been placed as. -/
theorem map_size_of_places {children : List RegionChild}
    (h : List.Forall₂ RegionChild.Places children members) :
    children.map (·.size) = members.map (·.size) := by
  induction h with
  | nil => rfl
  | cons hplace _ ih => rw [List.map_cons, List.map_cons, hplace.size, ih]

/-- Placed members end behind all of them. -/
theorem stop_eq_totalSize {children : List RegionChild} {stop : Nat}
    (h : place region alignment 0 members = .ok (children, stop)) : stop = totalSize members := by
  obtain ⟨hplaces, -, hstop⟩ := place_spec h
  rw [hstop, Nat.zero_add, map_size_of_places hplaces, totalSize]

/-- Members are placed exactly if they can be, and otherwise refused for the first one that breaks a
condition. -/
theorem place_iff (region : String) (alignment : Nat) (members : List RegionMember) :
    ((∃ placed, place region alignment 0 members = .ok placed) ↔ Placeable alignment members) ∧
    ∀ e, place region alignment 0 members = .error e ↔
      ∃ before member after, members = before ++ member :: after ∧
        Placeable alignment before ∧ member.Refused region alignment (totalSize before) e := by
  -- on the last member: the ones before it end where it starts
  induction members using List.reverseRecOn with
  | nil =>
    refine ⟨⟨fun _ => placeable_nil alignment, fun _ => ⟨_, rfl⟩⟩, fun e => ⟨nofun, ?_⟩⟩
    rintro ⟨before, member, after, h, -⟩
    simp at h
  | append_singleton init last ih =>
    obtain ⟨hplaced, hrefused⟩ := ih
    simp only [place_concat, placeable_concat, refused_concat, ← hrefused]
    cases hinit : place region alignment 0 init with
    | error cause =>
      have hnot : ¬ Placeable alignment init := by
        rw [← hplaced, hinit]
        simp
      simp [hnot]
    | ok placed =>
      obtain ⟨children, stop⟩ := placed
      obtain rfl := stop_eq_totalSize hinit
      have hcan : Placeable alignment init := hplaced.1 ⟨_, hinit⟩
      simp only [RegionMember.checks_eq_ok, RegionMember.checks_eq_error, hcan, true_and,
        reduceCtorEq, false_or, implies_true, and_self]

/-! ## Layouts -/

variable {node : NodeId} {startSymbol endSymbol : String} {layout : RegionLayout}

theorem build_eq_error : build node startSymbol endSymbol alignment members = .error e ↔
    place startSymbol alignment 0 members = .error e := by
  rw [build]
  cases place startSymbol alignment 0 members <;> simp

theorem exists_build_iff :
    (∃ layout, build node startSymbol endSymbol alignment members = .ok layout) ↔
      ∃ placed, place startSymbol alignment 0 members = .ok placed := by
  rw [build]
  cases place startSymbol alignment 0 members <;> simp

/-- The entries are the members in their order, each where the ones before it end. -/
theorem children_getElem? (h : build node startSymbol endSymbol alignment members = .ok layout)
    (i : Nat) : layout.children[i]? = members[i]?.map fun member =>
      ⟨member.node, member.symbol, totalSize (members.take i), member.size⟩ := by
  obtain ⟨-, -, -, hplaces, hpacked⟩ := build_spec h
  have hlength := hplaces.length_eq
  by_cases hi : i < layout.children.length
  · have hi' : i < members.length := by omega
    have hplace : layout.children[i].Places members[i] := hplaces.get hi hi'
    have hoffset := hpacked.offset i hi
    rw [map_size_of_places (List.forall₂_take i hplaces)] at hoffset
    rw [List.getElem?_eq_getElem hi, List.getElem?_eq_getElem hi', Option.map_some, totalSize,
      ← hoffset, ← hplace.node, ← hplace.symbol, ← hplace.size]
  · have hi' : ¬ i < members.length := by omega
    rw [List.getElem?_eq_none (Nat.not_lt.1 hi), List.getElem?_eq_none (Nat.not_lt.1 hi')]
    rfl

theorem endOffset_eq (h : build node startSymbol endSymbol alignment members = .ok layout) :
    layout.endOffset = totalSize members := by
  obtain ⟨-, -, -, hplaces, hpacked⟩ := build_spec h
  rw [hpacked.endOffset, map_size_of_places hplaces, totalSize]

theorem elementCount_of_size (h : build node startSymbol endSymbol alignment members = .ok layout)
    {size : Nat} (hpos : 0 < size) (hsize : ∀ member ∈ members, member.size = size) :
    layout.elementCount size = members.length := by
  have htotal : totalSize members = members.length * size := by
    rw [totalSize, List.map_congr_left hsize, List.map_const', List.sum_replicate_nat]
  rw [elementCount, endOffset_eq h, htotal, Nat.mul_div_cancel _ hpos]

/-- Of two powers of two the smaller one divides the other, so what is loaded at a multiple of the
region's alignment has every member at a multiple of its own. -/
theorem dvd_address {member : RegionMember} {offset address : Nat}
    (hfits : member.Fits alignment offset) (hregion : alignment.isPowerOfTwo)
    (hmember : member.alignment.isPowerOfTwo) (haddress : alignment ∣ address) :
    member.alignment ∣ address + offset := by
  obtain ⟨k, rfl⟩ := hregion
  obtain ⟨j, hj⟩ := hmember
  obtain ⟨hle, hoffset⟩ := hfits
  rw [hj] at hle hoffset ⊢
  have hdvd : 2 ^ j ∣ 2 ^ k := Nat.pow_dvd_pow 2 ((Nat.pow_le_pow_iff_right (by omega)).1 hle)
  apply Nat.dvd_add (hdvd.trans haddress)
  rcases hoffset with hzero | hoffset
  · have hpos := Nat.two_pow_pos j
    omega
  · exact hoffset

/-- A region is laid out without a gap or refused. It is laid out exactly if each member needs no
more alignment than the region has, none at all or one that divides the sizes before it, and all
sizes together are a 32-bit number. Then its entries are the members in their order, each at the sum
of the sizes before it, and the region ends at the sum of all; members of one size are counted right;
and if alignments are powers of two, every member is aligned wherever the region is. Otherwise the
error is about the first member that breaks a condition: it is misaligned, or else too large. -/
theorem build_gapless_or_refused (node : NodeId) (startSymbol endSymbol : String)
    (alignment : Nat) (members : List RegionMember) :
    ((∃ layout, build node startSymbol endSymbol alignment members = .ok layout) ↔
      (∀ before member after, members = before ++ member :: after →
        member.alignment ≤ alignment ∧
          (member.alignment = 0 ∨ member.alignment ∣ totalSize before)) ∧
      totalSize members ≤ 2 ^ 32 - 1) ∧
    (∀ layout, build node startSymbol endSymbol alignment members = .ok layout →
      (∀ i : Nat, layout.children[i]? = members[i]?.map fun member =>
        ⟨member.node, member.symbol, totalSize (members.take i), member.size⟩) ∧
      layout.endOffset = totalSize members ∧
      (∀ size, 0 < size → (∀ member ∈ members, member.size = size) →
        layout.elementCount size = members.length) ∧
      (alignment.isPowerOfTwo → ∀ address, alignment ∣ address →
        ∀ (i : Nat) member child, members[i]? = some member → layout.children[i]? = some child →
          member.alignment.isPowerOfTwo → member.alignment ∣ address + child.offset)) ∧
    ∀ e, build node startSymbol endSymbol alignment members = .error e ↔
      ∃ before member after, members = before ++ member :: after ∧
        Placeable alignment before ∧
        (¬ member.Fits alignment (totalSize before) ∧
            e = .misaligned startSymbol member.symbol (totalSize before) member.alignment ∨
          member.Fits alignment (totalSize before) ∧
            2 ^ 32 - 1 < totalSize before + member.size ∧ e = .overflow startSymbol) := by
  obtain ⟨hplaced, hrefused⟩ := place_iff startSymbol alignment members
  refine ⟨?_, fun layout h => ⟨children_getElem? h, endOffset_eq h,
    fun size hpos hsize => elementCount_of_size h hpos hsize, ?_⟩, fun e => ?_⟩
  · rw [exists_build_iff, hplaced]
    exact ⟨fun h => ⟨h.fits, h.size⟩, fun h => ⟨h.1, h.2⟩⟩
  · intro hregion address haddress i member child hmember hchild halign
    have hcan := hplaced.1 (exists_build_iff.1 ⟨layout, h⟩)
    rw [children_getElem? h, hmember] at hchild
    cases hchild
    -- the entry is where the members before it end
    obtain ⟨hi, rfl⟩ := List.getElem?_eq_some_iff.1 hmember
    have hfits := hcan.fits (members.take i) members[i] (members.drop (i + 1)) (by simp)
    exact dvd_address hfits hregion halign haddress
  · rw [build_eq_error, hrefused]
    simp only [RegionMember.refused_iff]
    exact Iff.rfl

/-- Entries of twelve, four and twenty bytes lie back to back, and the last one is aligned wherever
the region is loaded at a multiple of four. Behind six bytes an entry that needs to be aligned to
four is refused. -/
theorem entries_gapless_or_refused :
    (∃ layout, build ⟨0⟩ "start" "end" 4
        [⟨⟨1⟩, "a", 12, 4⟩, ⟨⟨2⟩, "b", 4, 4⟩, ⟨⟨3⟩, "c", 20, 4⟩] = .ok layout ∧
      layout.endOffset = 36 ∧ layout.children[2]? = some ⟨⟨3⟩, "c", 16, 20⟩ ∧
      ∀ address, 4 ∣ address → 4 ∣ address + 16) ∧
    build ⟨0⟩ "start" "end" 4 [⟨⟨1⟩, "odd", 6, 4⟩, ⟨⟨2⟩, "next", 4, 4⟩] =
        .error (.misaligned "start" "next" 6 4) ∧
      ∃ before member after,
        [⟨⟨1⟩, "odd", 6, 4⟩, ⟨⟨2⟩, "next", 4, 4⟩] = before ++ member :: after ∧
          Placeable 4 before ∧ ¬ member.Fits 4 (totalSize before) := by
  constructor
  · obtain ⟨-, hlaid, -⟩ := build_gapless_or_refused ⟨0⟩ "start" "end" 4
      [⟨⟨1⟩, "a", 12, 4⟩, ⟨⟨2⟩, "b", 4, 4⟩, ⟨⟨3⟩, "c", 20, 4⟩]
    obtain ⟨hchildren, hend, -, haligned⟩ := hlaid _ rfl
    exact ⟨_, rfl, hend, hchildren 2, fun address haddress =>
      haligned ⟨2, rfl⟩ address haddress 2 _ _ rfl rfl ⟨2, rfl⟩⟩
  · obtain ⟨-, -, hrefused⟩ := build_gapless_or_refused ⟨0⟩ "start" "end" 4
      [⟨⟨1⟩, "odd", 6, 4⟩, ⟨⟨2⟩, "next", 4, 4⟩]
    obtain ⟨before, member, after, hsplit, hbefore, ⟨hfits, -⟩ | ⟨-, -, hcause⟩⟩ :=
      (hrefused (.misaligned "start" "next" 6 4)).1 rfl
    · exact ⟨rfl, before, member, after, hsplit, hbefore, hfits⟩
    · cases hcause

end RegionLayout

end NativeImage
