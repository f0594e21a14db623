import Mathlib.Order.Bounds.Basic
import JarAudit.Text.ModifiedUtf8

/-!
# Groups of bytes, and the first byte that fits none

A byte sequence that `decode` reads is a sequence of groups of one, two or three bytes (`IsGroup`,
`IsText`). Any other sequence has whole groups in front, then perhaps the opening of one more group,
and there it halts: it ends, or goes on with a byte that does not fit (`exists_groups`). What is
read and what is reported follows from that decomposition (`decode_flatten`, `decode_halts`).

The offset that is reported has a meaning apart from how it is found: it is the length of the
longest front part that some readable sequence begins with (`decode_follows_grammar`).
-/

namespace JarAudit.Text.ModifiedUtf8

/-! ### The grammar -/

/-- A group: the bytes that stand for one unit. -/
inductive IsGroup : List UInt8 → Prop where
  | one {first : UInt8} (hfirst : first ≤ 0x7F) : IsGroup [first]
  | two {first second : UInt8} (hfirst : 0xC0 ≤ first ∧ first ≤ 0xDF)
      (hsecond : 0x80 ≤ second ∧ second ≤ 0xBF) : IsGroup [first, second]
  | three {first second third : UInt8} (hfirst : 0xE0 ≤ first ∧ first ≤ 0xEF)
      (hsecond : 0x80 ≤ second ∧ second ≤ 0xBF) (hthird : 0x80 ≤ third ∧ third ≤ 0xBF) :
      IsGroup [first, second, third]

/-- A sequence of groups. -/
def IsText (bytes : List UInt8) : Prop :=
  ∃ groups : List (List UInt8), (∀ group ∈ groups, IsGroup group) ∧ bytes = groups.flatten

/-- The front part of a group: some of its bytes and not all. -/
inductive IsOpening : List UInt8 → Prop where
  | one {first : UInt8} (hfirst : 0xC0 ≤ first ∧ first ≤ 0xEF) : IsOpening [first]
  | two {first second : UInt8} (hfirst : 0xE0 ≤ first ∧ first ≤ 0xEF)
      (hsecond : 0x80 ≤ second ∧ second ≤ 0xBF) : IsOpening [first, second]

/-- What stands behind whole groups fits up to `back` and no further, for this flaw. -/
inductive Halts : List UInt8 → List UInt8 → Flaw → Prop where
  | atEnd {front : List UInt8} (hfront : IsOpening front) : Halts front [] .truncatedSequence
  | insideGroup {front : List UInt8} {bad : UInt8} {more : List UInt8} (hfront : IsOpening front)
      (hbad : ¬ (0x80 ≤ bad ∧ bad ≤ 0xBF)) : Halts front (bad :: more) .expectedContinuation
  | betweenGroups {bad : UInt8} {more : List UInt8} (hone : ¬ bad ≤ 0x7F)
      (hfirst : ¬ (0xC0 ≤ bad ∧ bad ≤ 0xEF)) : Halts [] (bad :: more) .invalidLeadingByte

/-- Some readable sequence begins with these bytes. -/
def IsViable (front : List UInt8) : Prop := ∃ back text, decode (front ++ back) = .ok text

/-! ### Decomposition -/

/-- Bytes begin with a group, or they halt before one is complete. -/
theorem exists_group_or_halts (first : UInt8) (rest : List UInt8) :
    (∃ group back, IsGroup group ∧ first :: rest = group ++ back) ∨
      ∃ front back flaw, first :: rest = front ++ back ∧ Halts front back flaw := by
  by_cases hone : first ≤ 0x7F
  · exact .inl ⟨[first], rest, .one hone, rfl⟩
  by_cases htwo : 0xC0 ≤ first ∧ first ≤ 0xDF
  · have hopening : IsOpening [first] := .one (by grind)
    cases rest with
    | nil => exact .inr ⟨[first], [], _, rfl, .atEnd hopening⟩
    | cons second rest =>
      by_cases hsecond : 0x80 ≤ second ∧ second ≤ 0xBF
      · exact .inl ⟨[first, second], rest, .two htwo hsecond, rfl⟩
      · exact .inr ⟨[first], second :: rest, _, rfl, .insideGroup hopening hsecond⟩
  by_cases hthree : 0xE0 ≤ first ∧ first ≤ 0xEF
  · have hopening : IsOpening [first] := .one (by grind)
    rcases rest with _ | ⟨second, rest⟩
    · exact .inr ⟨[first], [], _, rfl, .atEnd hopening⟩
    by_cases hsecond : 0x80 ≤ second ∧ second ≤ 0xBF
    · have hopening : IsOpening [first, second] := .two hthree hsecond
      rcases rest with _ | ⟨third, rest⟩
      · exact .inr ⟨[first, second], [], _, rfl, .atEnd hopening⟩
      by_cases hthird : 0x80 ≤ third ∧ third ≤ 0xBF
      · exact .inl ⟨[first, second, third], rest, .three hthree hsecond hthird, rfl⟩
      · exact .inr ⟨[first, second], third :: rest, _, rfl, .insideGroup hopening hthird⟩
    · exact .inr ⟨[first], second :: rest, _, rfl, .insideGroup hopening hsecond⟩
  · exact .inr ⟨[], first :: rest, _, rfl, .betweenGroups hone (by grind)⟩

theorem IsGroup.length_pos {group : List UInt8} (h : IsGroup group) : 0 < group.length := by
  cases h <;> simp

/-- Every byte sequence is a sequence of groups, or has one in front and halts behind it. -/
theorem exists_groups (bytes : List UInt8) :
    ∃ groups : List (List UInt8), (∀ group ∈ groups, IsGroup group) ∧
      (bytes = groups.flatten ∨
        ∃ front back flaw, bytes = groups.flatten ++ (front ++ back) ∧ Halts front back flaw) := by
  -- On the length: what stands behind a group is shorter.
  induction hlength : bytes.length using Nat.strongRecOn generalizing bytes with
  | _ length ih =>
    subst hlength
    rcases bytes with _ | ⟨first, rest⟩
    · exact ⟨[], by simp, .inl rfl⟩
    obtain ⟨group, back, hgroup, hsplit⟩ | ⟨front, back, flaw, hsplit, hhalts⟩ :=
      exists_group_or_halts first rest
    · rw [hsplit] at ih ⊢
      have hpos := hgroup.length_pos
      have hshorter : back.length < (group ++ back).length := by
        rw [List.length_append]
        omega
      obtain ⟨groups, hgroups, hback⟩ := ih _ hshorter back rfl
      refine ⟨group :: groups, List.forall_mem_cons.mpr ⟨hgroup, hgroups⟩, ?_⟩
      rcases hback with rfl | ⟨front, back, flaw, rfl, hhalts⟩
      · exact .inl rfl
      · exact .inr ⟨front, back, flaw, by simp, hhalts⟩
    · exact ⟨[], by simp, .inr ⟨front, back, flaw, hsplit, hhalts⟩⟩

/-! ### Reading groups -/

/-- The unit that a group stands for. -/
def unitOf : List UInt8 → UInt16
  | [first] => first.toUInt16
  | [first, second] => unit2 first second
  | [first, second, third] => unit3 first second third
  | _ => 0

theorem isContinuation_iff {byte : UInt8} :
    isContinuation byte = true ↔ 0x80 ≤ byte ∧ byte ≤ 0xBF := by
  have hall : ∀ n < 256, (n &&& 0xC0 = 0x80 ↔ 0x80 ≤ n ∧ n ≤ 0xBF) := by decide +kernel
  have hbyte := hall byte.toNat byte.toNat_lt
  simpa [isContinuation, UInt8.le_iff_toNat_le, ← UInt8.toNat_inj] using hbyte

theorem isContinuation_eq_false {byte : UInt8} (h : ¬ (0x80 ≤ byte ∧ byte ≤ 0xBF)) :
    isContinuation byte = false := by
  rwa [← Bool.not_eq_true, isContinuation_iff]

/-- A group is read as its unit. -/
theorem unitsFrom_group {group : List UInt8} (h : IsGroup group) (offset : Nat)
    (read : List UInt16) (rest : List UInt8) :
    unitsFrom offset read (group ++ rest) =
      unitsFrom (offset + group.length) (unitOf group :: read) rest := by
  rw [unitsFrom.eq_def]
  cases h with
  | @one first hfirst =>
    have hlt : first < 0x80 := by grind
    simp [hlt, unitOf]
  | @two first second hfirst hsecond =>
    have hge : ¬ first < 0x80 := by grind
    have hlt : first < 0xE0 := by grind
    simp [hge, hfirst.1, hlt, isContinuation_iff.mpr hsecond, unitOf]
  | @three first second third hfirst hsecond hthird =>
    have hge : ¬ first < 0x80 := by grind
    have htwo : ¬ first < 0xE0 := by grind
    have hlt : first < 0xF0 := by grind
    simp [hge, htwo, hfirst.1, hlt, isContinuation_iff.mpr hsecond, isContinuation_iff.mpr hthird,
      unitOf]

theorem unitsFrom_flatten {groups : List (List UInt8)} (h : ∀ group ∈ groups, IsGroup group)
    (offset : Nat) (read : List UInt16) (rest : List UInt8) :
    unitsFrom offset read (groups.flatten ++ rest) =
      unitsFrom (offset + groups.flatten.length) ((groups.map unitOf).reverse ++ read) rest := by
  induction groups generalizing offset read with
  | nil => rfl
  | cons group groups ih =>
    obtain ⟨hgroup, hgroups⟩ := List.forall_mem_cons.mp h
    rw [List.flatten_cons, List.append_assoc, unitsFrom_group hgroup, ih hgroups]
    simp [Nat.add_assoc]

/-- Where bytes halt, reading stops behind what fits. -/
theorem unitsFrom_halts {front back : List UInt8} {flaw : Flaw} (h : Halts front back flaw)
    (offset : Nat) (read : List UInt16) :
    unitsFrom offset read (front ++ back) = .error ⟨offset + front.length, flaw⟩ := by
  rw [unitsFrom.eq_def]
  cases h with
  | atEnd hfront =>
    cases hfront with
    | @one first hfirst =>
      have hge : ¬ first < 0x80 := by grind
      have hlt : first < 0xF0 := by grind
      by_cases htwo : first < 0xE0
      · simp [hge, hfirst.1, htwo]
      · have hthree : 0xE0 ≤ first := by grind
        simp [hge, htwo, hthree, hlt]
    | @two first second hfirst hsecond =>
      have hge : ¬ first < 0x80 := by grind
      have htwo : ¬ first < 0xE0 := by grind
      have hlt : first < 0xF0 := by grind
      simp [hge, htwo, hfirst.1, hlt, isContinuation_iff.mpr hsecond]
  | @insideGroup _ bad more hfront hbad =>
    cases hfront with
    | @one first hfirst =>
      have hge : ¬ first < 0x80 := by grind
      have hlt : first < 0xF0 := by grind
      by_cases htwo : first < 0xE0
      · simp [hge, hfirst.1, htwo, isContinuation_eq_false hbad]
      · have hthree : 0xE0 ≤ first := by grind
        cases more <;> simp [hge, htwo, hthree, hlt, isContinuation_eq_false hbad]
    | @two first second hfirst hsecond =>
      have hge : ¬ first < 0x80 := by grind
      have htwo : ¬ first < 0xE0 := by grind
      have hlt : first < 0xF0 := by grind
      simp [hge, htwo, hfirst.1, hlt, isContinuation_iff.mpr hsecond, isContinuation_eq_false hbad]
  | @betweenGroups bad more hone hfirst =>
    have hge : ¬ bad < 0x80 := by grind
    have htwo : ¬ (0xC0 ≤ bad ∧ bad < 0xE0) := by grind
    have hthree : ¬ (0xE0 ≤ bad ∧ bad < 0xF0) := by grind
    simp [hge, htwo, hthree]

/-- A sequence of groups is read. -/
theorem decode_flatten {groups : List (List UInt8)} (h : ∀ group ∈ groups, IsGroup group) :
    decode groups.flatten = .ok (Utf16.decode (groups.map unitOf)) := by
  have hread := unitsFrom_flatten h 0 [] []
  rw [List.append_nil, unitsFrom, List.append_nil, List.reverse_reverse] at hread
  rw [decode, units, hread]
  rfl

/-- Bytes that halt behind groups are reported with the length of what fits. -/
theorem decode_halts {groups : List (List UInt8)} (h : ∀ group ∈ groups, IsGroup group)
    {front back : List UInt8} {flaw : Flaw} (hhalts : Halts front back flaw) :
    decode (groups.flatten ++ (front ++ back)) =
      .error ⟨(groups.flatten ++ front).length, flaw⟩ := by
  rw [decode, units, unitsFrom_flatten h, unitsFrom_halts hhalts, List.length_append, Nat.zero_add]
  rfl

/-- What is read is a sequence of groups, and every such sequence is read. -/
theorem exists_decode_iff {bytes : List UInt8} :
    (∃ text, decode bytes = .ok text) ↔ IsText bytes := by
  constructor
  · rintro ⟨text, htext⟩
    obtain ⟨groups, hgroups, rfl | ⟨front, back, flaw, rfl, hhalts⟩⟩ := exists_groups bytes
    · exact ⟨groups, hgroups, rfl⟩
    · rw [decode_halts hgroups hhalts] at htext
      cases htext
  · rintro ⟨groups, hgroups, rfl⟩
    exact ⟨_, decode_flatten hgroups⟩

/-! ### The longest viable front part -/

theorem IsViable.of_append {front more : List UInt8} (h : IsViable (front ++ more)) :
    IsViable front := by
  obtain ⟨back, text, htext⟩ := h
  exact ⟨more ++ back, text, by rwa [← List.append_assoc]⟩

/-- The opening of a group can be completed. -/
theorem IsOpening.exists_isGroup {front : List UInt8} (h : IsOpening front) :
    ∃ back, IsGroup (front ++ back) := by
  cases h with
  | @one first hfirst =>
    by_cases htwo : first ≤ 0xDF
    · exact ⟨[0x80], .two ⟨hfirst.1, htwo⟩ (by decide)⟩
    · have hthree : 0xE0 ≤ first ∧ first ≤ 0xEF := by grind
      exact ⟨[0x80, 0x80], .three hthree (by decide) (by decide)⟩
  | two hfirst hsecond => exact ⟨[0x80], .three hfirst hsecond (by decide)⟩

section Groups

variable {groups : List (List UInt8)} {front back : List UInt8} {flaw : Flaw}

/-- What fits is viable. -/
theorem isViable_of_halts (h : ∀ group ∈ groups, IsGroup group) (hhalts : Halts front back flaw) :
    IsViable (groups.flatten ++ front) := by
  have hopening (hfront : IsOpening front) : IsViable (groups.flatten ++ front) := by
    obtain ⟨more, hgroup⟩ := hfront.exists_isGroup
    have hall : ∀ group ∈ groups ++ [front ++ more], IsGroup group := by
      simpa [or_imp, forall_and] using ⟨h, hgroup⟩
    exact ⟨more, _, by simpa using decode_flatten hall⟩
  cases hhalts with
  | atEnd hfront => exact hopening hfront
  | insideGroup hfront => exact hopening hfront
  | betweenGroups => exact ⟨[], _, by simpa using decode_flatten h⟩

/-- With the byte that does not fit nothing is viable, since reading halts there whatever stands
behind it. -/
theorem not_isViable_of_halts (h : ∀ group ∈ groups, IsGroup group) {bad : UInt8}
    {more : List UInt8} (hhalts : Halts front (bad :: more) flaw) :
    ¬ IsViable (groups.flatten ++ (front ++ [bad])) := by
  rintro ⟨other, text, htext⟩
  have hother : Halts front (bad :: other) flaw := by
    cases hhalts with
    | insideGroup hfront hbad => exact .insideGroup hfront hbad
    | betweenGroups hone hfirst => exact .betweenGroups hone hfirst
  have herror := decode_halts h hother
  have hsplit : groups.flatten ++ (front ++ [bad]) ++ other =
      groups.flatten ++ (front ++ bad :: other) := by
    simp
  rw [hsplit, herror] at htext
  cases htext

/-- Behind whole groups, what is viable ends on the boundary of a group or inside of one. -/
theorem isText_append_iff (h : ∀ group ∈ groups, IsGroup group) (hhalts : Halts front back flaw) :
    IsText (groups.flatten ++ front) ↔ front = [] := by
  constructor
  · intro htext
    have hopening (hfront : IsOpening front) : front = [] := by
      obtain ⟨text, htext⟩ := exists_decode_iff.mpr htext
      have herror := decode_halts h (.atEnd hfront)
      rw [List.append_nil, htext] at herror
      cases herror
    cases hhalts with
    | atEnd hfront => exact hopening hfront
    | insideGroup hfront => exact hopening hfront
    | betweenGroups => rfl
  · rintro rfl
    exact ⟨groups, h, List.append_nil _⟩

end Groups

/-- A flaw stands at the end of the longest front part that is viable, and says of what kind this
end is: the end of the bytes, so that only more bytes are missing; the boundary of a group; or a
place inside of one. -/
structure Locates (bytes : List UInt8) (malformed : Malformed) : Prop where
  longest : IsGreatest {length | length ≤ bytes.length ∧ IsViable (bytes.take length)}
    malformed.offset
  truncated : malformed.flaw.message = "truncated multi-byte sequence" ↔
    malformed.offset = bytes.length
  completable : malformed.offset = bytes.length ↔ IsViable bytes
  leading : malformed.flaw.message = "invalid leading byte" ↔
    IsText (bytes.take malformed.offset)
  continuation : malformed.flaw.message = "expected continuation byte" ↔
    malformed.offset < bytes.length ∧ ¬ IsText (bytes.take malformed.offset)

theorem Flaw.eq_of_message_eq {a b : Flaw} (h : a.message = b.message) : a = b := by
  revert h
  cases a <;> cases b <;> simp [Flaw.message]

theorem IsOpening.ne_nil {front : List UInt8} (h : IsOpening front) : front ≠ [] := by
  cases h <;> simp

/-- The place where bytes halt is located. -/
theorem locates_of_halts {groups : List (List UInt8)} (h : ∀ group ∈ groups, IsGroup group)
    {front back : List UInt8} {flaw : Flaw} (hhalts : Halts front back flaw) :
    Locates (groups.flatten ++ (front ++ back)) ⟨(groups.flatten ++ front).length, flaw⟩ := by
  have hviable := isViable_of_halts h hhalts
  have htext := isText_append_iff h hhalts
  have hend : (groups.flatten ++ front).length = (groups.flatten ++ (front ++ back)).length ↔
      back = [] := by simp
  have htake : (groups.flatten ++ (front ++ back)).take (groups.flatten ++ front).length =
      groups.flatten ++ front := by
    rw [← List.append_assoc, List.take_left]
  have hgreatest : ∀ length ≤ (groups.flatten ++ (front ++ back)).length,
      IsViable ((groups.flatten ++ (front ++ back)).take length) →
        length ≤ (groups.flatten ++ front).length := by
    intro length hlength hlonger
    rcases back with _ | ⟨bad, more⟩
    · rwa [List.append_nil] at hlength
    -- A longer front part has the byte in it that does not fit.
    by_contra hbeyond
    have hsplit : groups.flatten ++ (front ++ bad :: more) =
        (groups.flatten ++ (front ++ [bad])) ++ more := by simp
    have hincludes : (groups.flatten ++ (front ++ [bad])).length ≤ length := by
      simp only [List.length_append, List.length_singleton] at hbeyond ⊢
      omega
    rw [hsplit, List.take_append, List.take_of_length_le hincludes] at hlonger
    exact not_isViable_of_halts h hhalts hlonger.of_append
  constructor
  case longest =>
    have hwithin :
        (groups.flatten ++ front).length ≤ (groups.flatten ++ (front ++ back)).length := by
      simp
    exact ⟨⟨hwithin, by rwa [htake]⟩, fun length hlength => hgreatest length hlength.1 hlength.2⟩
  case truncated =>
    rw [hend]
    cases hhalts <;> simp [Flaw.message]
  case completable =>
    rw [hend]
    constructor
    · rintro rfl
      rwa [List.append_nil]
    · intro hall
      have hle := hgreatest _ (Nat.le_refl _) (by rwa [List.take_length])
      simp only [List.length_append] at hle
      exact List.eq_nil_of_length_eq_zero (by omega)
  case leading =>
    rw [htake, htext]
    cases hhalts with
    | atEnd hfront => simp [Flaw.message, hfront.ne_nil]
    | insideGroup hfront => simp [Flaw.message, hfront.ne_nil]
    | betweenGroups => simp [Flaw.message]
  case continuation =>
    rw [htake, htext]
    cases hhalts with
    | atEnd => simp [Flaw.message]
    | insideGroup hfront => simp [Flaw.message, hfront.ne_nil]
    | betweenGroups => simp [Flaw.message]

/-- At most one flaw is located in bytes. -/
theorem Locates.eq {bytes : List UInt8} {a b : Malformed} (ha : Locates bytes a)
    (hb : Locates bytes b) : a = b := by
  have hoffset : a.offset = b.offset := ha.longest.unique hb.longest
  have hmessage : a.flaw.message = b.flaw.message := by
    cases hflaw : a.flaw with
    | truncatedSequence =>
      have hend := ha.truncated.mp (by rw [hflaw]; rfl)
      exact (hb.truncated.mpr (hoffset ▸ hend)).symm
    | invalidLeadingByte =>
      have hboundary := ha.leading.mp (by rw [hflaw]; rfl)
      exact (hb.leading.mpr (hoffset ▸ hboundary)).symm
    | expectedContinuation =>
      have hinside := ha.continuation.mp (by rw [hflaw]; rfl)
      exact (hb.continuation.mpr (hoffset ▸ hinside)).symm
  cases a
  cases b
  rw [Malformed.mk.injEq]
  exact ⟨hoffset, Flaw.eq_of_message_eq hmessage⟩

/-- Bytes are read exactly when they follow the grammar. Any others are reported, and what is
reported is the flaw that is located in them. -/
theorem decode_follows_grammar (bytes : List UInt8) :
    ((∃ text, decode bytes = .ok text) ↔ IsText bytes) ∧
      ∀ malformed, decode bytes = .error malformed ↔
        ¬ IsText bytes ∧ Locates bytes malformed := by
  refine ⟨exists_decode_iff, fun malformed => ?_⟩
  obtain ⟨groups, hgroups, rfl | ⟨front, back, flaw, rfl, hhalts⟩⟩ := exists_groups bytes
  · have htext : IsText groups.flatten := ⟨groups, hgroups, rfl⟩
    rw [decode_flatten hgroups]
    simp [htext]
  · have herror := decode_halts hgroups hhalts
    have hlocates := locates_of_halts hgroups hhalts
    have hnot : ¬ IsText (groups.flatten ++ (front ++ back)) := by
      rw [← exists_decode_iff, herror]
      rintro ⟨text, htext⟩
      cases htext
    rw [herror, Except.error.injEq]
    constructor
    · rintro rfl
      exact ⟨hnot, hlocates⟩
    · rintro ⟨-, hother⟩
      exact hlocates.eq hother

end JarAudit.Text.ModifiedUtf8
