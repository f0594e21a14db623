import JarAudit.Proofs.Jar
import JarAudit.Proofs.Reference.TypeText
import JarAudit.Proofs.Text.Boundaries

/-!
# Class names by byte offsets

A text that is held as UTF-8 can be searched for class names by offsets and single bytes alone:
`cleanNameAt` takes the name of a class constant apart, and `namesAt` goes through a descriptor in
rounds, each of which looks for an `L` and for the `;` behind it. Every slice has to lie between
boundaries, and every byte that is looked at has to be there, or the search fails.

It never does, and it finds the names that the walk over characters finds (`offsets_sound`). Each
round leaves the search in front of a part of the text (`round_encode`), at least two bytes further on
(`round_advances`), which is also why the search comes to an end.
-/

namespace JarAudit.Reference

open JarAudit.Text Utf8

theorem bind_of_eq_ok {ε α β : Type} {result : Except ε α} {next : α → Except ε β} {a : α}
    (h : result = .ok a) : (result >>= next) = next a := by
  rw [h]
  rfl

/-! ### Names of class constants -/

/-- The class of the elements of an array, from the bytes behind the brackets of its name. -/
def elementNameAt (bytes : List UInt8) : Except OffsetFault (Option (List UInt8)) :=
  match bytes with
  | [] => return none
  | first :: element =>
    if first = ascii 'L' then
      match element.idxOf? (ascii ';') with
      | none => return none
      | some stop => do
        let own ← slice element 0 stop
        return if own.isEmpty then none else some own
    else return none

/-- The class that the name of a class constant is about. -/
def cleanNameAt (bytes : List UInt8) : Except OffsetFault (Option (List UInt8)) :=
  if bytes.isEmpty then return none
  else
    match lastIdxOf? (ascii '[') bytes with
    | none => return some bytes
    | some opening => do elementNameAt (← slice bytes (opening + 1) bytes.length)

theorem afterLastBracket_append_cons {rest : List Char} (h : '[' ∉ rest) (front : List Char) :
    afterLastBracket (front ++ '[' :: rest) = some rest := by
  induction front with
  | nil => exact afterLastBracket_cons_of_not_mem h
  | cons char front ih =>
    rw [List.cons_append, afterLastBracket_cons_of_mem (by simp), ih]

/-- A character is missing in a text, or it stands there a first time. -/
theorem exists_eq_append_cons_or_not_mem (char : Char) (text : List Char) :
    char ∉ text ∨ ∃ front back, text = front ++ char :: back ∧ char ∉ front := by
  by_cases h : char ∈ text
  · exact .inr (List.eq_append_cons_of_mem h)
  · exact .inl h

/-- A character that stands in a text stands there a last time. -/
theorem exists_eq_append_cons_last {char : Char} {text : List Char} (h : char ∈ text) :
    ∃ front back, text = front ++ char :: back ∧ char ∉ back := by
  obtain ⟨back, front, hreverse, hback⟩ := List.eq_append_cons_of_mem (List.mem_reverse.mpr h)
  refine ⟨front.reverse, back.reverse, ?_, mt List.mem_reverse.mp hback⟩
  rw [← List.reverse_reverse text, hreverse, List.reverse_append, List.reverse_cons,
    List.append_assoc, List.singleton_append]

theorem elementName_append {own : List Char} (h : ';' ∉ own) (behind : List Char) :
    elementName ('L' :: (own ++ ';' :: behind)) = if own.isEmpty then none else some own := by
  rw [elementName, splitAtFirst_append h]
  rfl

theorem elementName_of_not_mem {element : List Char} (h : ';' ∉ element) :
    elementName ('L' :: element) = none := by
  rw [elementName, splitAtFirst, if_neg h]
  rfl

theorem elementName_of_ne {char : Char} (h : char ≠ 'L') (rest : List Char) :
    elementName (char :: rest) = none := by
  unfold elementName
  split
  case h_1 heq => exact absurd (List.cons.inj heq).1 h
  case h_2 => rfl

/-- What stands behind the brackets is searched alike. -/
theorem elementNameAt_encode (rest : List Char) :
    elementNameAt (encode rest) = .ok ((elementName rest).map encode) := by
  cases rest with
  | nil => rfl
  | cons char element =>
    by_cases hL : char = 'L'
    · subst hL
      have hbytes : encode ('L' :: element) = ascii 'L' :: encode element :=
        encode_append_cons (by decide) [] element
      rw [hbytes]
      unfold elementNameAt
      dsimp only
      rw [if_pos rfl]
      obtain hnot | ⟨own, behind, rfl, hown⟩ := exists_eq_append_cons_or_not_mem ';' element
      · rw [idxOf?_encode_of_not_mem (by decide) hnot, elementName_of_not_mem hnot]
        rfl
      · have hslice : slice (encode (own ++ ';' :: behind)) 0 (encode own).length =
            .ok (encode own) := slice_encode [] own (';' :: behind)
        rw [idxOf?_encode (by decide) hown, elementName_append hown]
        dsimp only
        rw [bind_of_eq_ok hslice, isEmpty_encode, apply_ite (Option.map encode)]
        rfl
    · -- The first byte is that of the character, and no other has the byte of an L.
      obtain ⟨first, more, hbytes, -⟩ := exists_opening char
      have hfirst : first ≠ ascii 'L' := by
        rintro rfl
        have hmem : ascii 'L' ∈ String.utf8EncodeChar char := by
          rw [hbytes]
          exact List.mem_cons_self
        exact hL ((ascii_mem_encodeChar_iff (by decide)).mp hmem).symm
      have hencode : encode (char :: element) = first :: (more ++ encode element) := by
        rw [encode_cons, hbytes]
        rfl
      rw [hencode, elementName_of_ne hL]
      exact if_neg hfirst

theorem cleanNameAt_encode (text : List Char) :
    cleanNameAt (encode text) = .ok ((cleanName text).map encode) := by
  unfold cleanNameAt
  rw [isEmpty_encode]
  split
  case isTrue hempty =>
    obtain rfl := List.isEmpty_iff.mp hempty
    rfl
  case isFalse hne =>
    rw [List.isEmpty_iff] at hne
    by_cases hmem : '[' ∈ text
    · obtain ⟨front, rest, rfl, hrest⟩ := exists_eq_append_cons_last hmem
      rw [lastIdxOf?_encode (by decide) front hrest,
        cleanName_of_afterLastBracket (afterLastBracket_append_cons hrest front)]
      dsimp only
      rw [bind_of_eq_ok (slice_encode_behind_end (by decide) front rest)]
      exact elementNameAt_encode rest
    · rw [lastIdxOf?_encode_of_not_mem (by decide) hmem, cleanName_of_not_mem hne hmem]
      rfl

/-! ### Names in descriptors -/

/-- One round of the search: an `L`, the name behind it if it counts, and where the next round
begins. -/
structure Round where
  start : Nat
  name : Option (List UInt8)
  next : Nat

/-- Whether a name opens at an `L`: the first byte does it, and every other one by the byte in front
of it. -/
def opensAt (bytes : List UInt8) (start : Nat) : Except OffsetFault Bool :=
  if start = 0 then return true
  else
    match bytes[start - 1]? with
    | some byte => return ("()[;BCDFIJSZ".toList.map ascii).contains byte
    | none => throw (.byte (start - 1))

/-- The name between an `L` and the `;` that ends it, if it counts. -/
def nameAt (bytes : List UInt8) (start stop : Nat) : Except OffsetFault (Option (List UInt8)) := do
  if ← opensAt bytes start then return some (← slice bytes (start + 1) stop) else return none

/-- The round that finds its `L` at an offset. There is none when no `;` follows. -/
def roundFrom (bytes : List UInt8) (start : Nat) : Except OffsetFault (Option Round) := do
  match (← slice bytes (start + 1) bytes.length).idxOf? (ascii ';') with
  | none => return none
  | some length =>
    let stop := start + 1 + length
    return some ⟨start, ← nameAt bytes start stop, stop + 1⟩

/-- The round that begins at an offset. There is none when no `L` follows. -/
def round (bytes : List UInt8) (offset : Nat) : Except OffsetFault (Option Round) := do
  match (← slice bytes offset bytes.length).idxOf? (ascii 'L') with
  | none => return none
  | some found => roundFrom bytes (offset + found)

theorem lt_of_idxOf? {byte : UInt8} {bytes : List UInt8} {offset : Nat}
    (h : bytes.idxOf? byte = some offset) : offset < bytes.length :=
  (List.idxOf?_eq_some_iff.mp h).1

theorem roundFrom_advances {bytes : List UInt8} {start : Nat} {found : Round}
    (h : roundFrom bytes start = .ok (some found)) :
    start + 2 ≤ found.next ∧ found.next ≤ bytes.length := by
  obtain ⟨behind, hbehind, h⟩ := bind_eq_ok.mp h
  split at h
  case h_1 => cases h
  case h_2 length hlength =>
    obtain ⟨name, -, h⟩ := bind_eq_ok.mp h
    obtain rfl := Option.some.inj (Except.ok.inj h)
    -- The next round leaves out at least the `L` and the `;`.
    have hsize := length_of_slice hbehind
    have hlt := lt_of_idxOf? hlength
    dsimp only
    omega

/-- Whatever the bytes are, a round ends at least two of them further on, and not behind them. -/
theorem round_advances {bytes : List UInt8} {offset : Nat} {found : Round}
    (h : round bytes offset = .ok (some found)) :
    offset + 2 ≤ found.next ∧ found.next ≤ bytes.length := by
  obtain ⟨rest, -, h⟩ := bind_eq_ok.mp h
  split at h
  case h_1 => cases h
  case h_2 =>
    have hnext := roundFrom_advances h
    omega

/-- The names from an offset on. -/
def namesAt (bytes : List UInt8) (offset : Nat) : Except OffsetFault (List (List UInt8)) :=
  match _hround : round bytes offset with
  | .error fault => .error fault
  | .ok none => .ok []
  | .ok (some found) => do return found.name.toList ++ (← namesAt bytes found.next)
termination_by bytes.length - offset
decreasing_by
  have hnext := round_advances _hround
  omega

theorem namesAt_of_none {bytes : List UInt8} {offset : Nat} (h : round bytes offset = .ok none) :
    namesAt bytes offset = .ok [] := by
  unfold namesAt
  split
  case h_1 hround => cases h.symm.trans hround
  case h_2 => rfl
  case h_3 hround => cases h.symm.trans hround

theorem namesAt_of_some {bytes : List UInt8} {offset : Nat} {found : Round}
    (h : round bytes offset = .ok (some found)) :
    namesAt bytes offset = namesAt bytes found.next >>= fun names =>
      .ok (found.name.toList ++ names) := by
  rw [namesAt]
  split
  case h_1 hround => cases h.symm.trans hround
  case h_2 hround => cases h.symm.trans hround
  case h_3 other hround =>
    obtain rfl := Option.some.inj (Except.ok.inj (h.symm.trans hround))
    rfl

/-- The offsets at which the rounds of a search begin. -/
inductive Reached (bytes : List UInt8) : Nat → Prop where
  | front : Reached bytes 0
  | next {offset : Nat} {found : Round} (hoffset : Reached bytes offset)
    (hround : round bytes offset = .ok (some found)) : Reached bytes found.next

/-! ### One round over a text -/

theorem sign_lt {sign : Char} (h : sign ∈ "()[;BCDFIJSZ".toList) : sign.toNat < 0x80 := by
  have hall : "()[;BCDFIJSZ".toList.all (fun sign => sign.toNat < 0x80) = true := rfl
  exact of_decide_eq_true (List.all_eq_true.mp hall sign h)

theorem opensAt_encode (front back : List Char) :
    opensAt (encode (front ++ back)) (encode front).length =
      .ok (front.getLast?.all opensName) := by
  unfold opensAt
  rcases List.eq_nil_or_concat front with rfl | ⟨init, char, rfl⟩
  · rfl
  · rw [List.concat_eq_append]
    obtain ⟨byte, hmem, hbyte⟩ := getElem?_encode_pred init char back
    have hne : (encode (init ++ [char])).length ≠ 0 := by
      rw [ne_eq, List.length_eq_zero_iff, ← List.isEmpty_iff, isEmpty_encode]
      simp
    rw [if_neg hne, hbyte]
    dsimp only
    rw [contains_map_ascii (fun sign => sign_lt) hmem, List.getLast?_concat]
    rfl

/-- The last byte of a long character is no sign. -/
example : opensAt (encode "éLx;".toList) 2 = .ok false := by decide

theorem nameAt_encode (front name behind : List Char) :
    nameAt (encode (front ++ 'L' :: (name ++ behind))) (encode front).length
        (encode (front ++ 'L' :: name)).length =
      .ok (if front.getLast?.all opensName then some (encode name) else none) := by
  unfold nameAt
  rw [opensAt_encode]
  cases front.getLast?.all opensName with
  | false => rfl
  | true =>
    show (slice _ _ _ >>= fun name => Except.ok (some name)) = _
    rw [bind_of_eq_ok (slice_encode_behind (by decide) front name behind)]
    rfl

theorem roundFrom_encode_of_not_mem (front : List Char) {rest : List Char} (h : ';' ∉ rest) :
    roundFrom (encode (front ++ 'L' :: rest)) (encode front).length = .ok none := by
  rw [roundFrom, bind_of_eq_ok (slice_encode_behind_end (by decide) front rest),
    idxOf?_encode_of_not_mem (by decide) h]
  rfl

/-- Behind an `L` a round goes to the next `;`. -/
theorem roundFrom_encode (front : List Char) {name : List Char} (h : ';' ∉ name)
    (behind : List Char) :
    roundFrom (encode (front ++ 'L' :: (name ++ ';' :: behind))) (encode front).length =
      .ok (some
        { start := (encode front).length
          name := if front.getLast?.all opensName then some (encode name) else none
          next := (encode (front ++ 'L' :: (name ++ [';']))).length }) := by
  have hstop : (encode front).length + 1 + (encode name).length =
      (encode (front ++ 'L' :: name)).length := by
    rw [encode_append_cons (by decide), List.length_append, List.length_cons]
    omega
  have hnext : (encode (front ++ 'L' :: name)).length + 1 =
      (encode (front ++ 'L' :: (name ++ [';']))).length := by
    rw [← List.cons_append, ← List.append_assoc, length_encode_concat (by decide)]
  rw [roundFrom, bind_of_eq_ok (slice_encode_behind_end (by decide) front _),
    idxOf?_encode (by decide) h]
  dsimp only
  rw [hstop, bind_of_eq_ok (nameAt_encode front name (';' :: behind)), hnext]
  rfl

theorem round_encode_of_not_mem (before : List Char) {rest : List Char} (h : 'L' ∉ rest) :
    round (encode (before ++ rest)) (encode before).length = .ok none := by
  rw [round, bind_of_eq_ok (slice_encode_end before rest),
    idxOf?_encode_of_not_mem (by decide) h]
  rfl

/-- A round goes to the next `L`. -/
theorem round_encode (before : List Char) {skipped : List Char} (h : 'L' ∉ skipped)
    (rest : List Char) :
    round (encode (before ++ (skipped ++ 'L' :: rest))) (encode before).length =
      roundFrom (encode (before ++ skipped ++ 'L' :: rest)) (encode (before ++ skipped)).length := by
  rw [round, bind_of_eq_ok (slice_encode_end before _), idxOf?_encode (by decide) h]
  dsimp only
  rw [← List.append_assoc, encode_append before skipped, List.length_append]

/-! ### The walk over characters -/

theorem namesFrom_skip {skipped : List Char} (h : 'L' ∉ skipped) (before : List Char)
    (found : List (List Char)) (rest : List Char) :
    namesFrom (.between (before.getLast?.all opensName)) found (skipped ++ rest) =
      namesFrom (.between ((before ++ skipped).getLast?.all opensName)) found rest := by
  induction skipped generalizing before with
  | nil => rw [List.nil_append, List.append_nil]
  | cons char skipped ih =>
    rw [List.mem_cons, not_or] at h
    have hlast : opensName char = (before ++ [char]).getLast?.all opensName := by
      rw [List.getLast?_concat]
      rfl
    rw [List.cons_append, namesFrom_between_cons (Ne.symm h.1), hlast, ih h.2, List.append_assoc,
      List.singleton_append]

theorem namesFrom_inside_of_not_mem {rest : List Char} (h : ';' ∉ rest) (counts : Bool)
    (name : List Char) (found : List (List Char)) :
    namesFrom (.inside counts name) found rest = found.reverse := by
  induction rest generalizing name with
  | nil => rfl
  | cons char rest ih =>
    rw [List.mem_cons, not_or] at h
    rw [namesFrom, if_neg (Ne.symm h.1), ih h.2]

/-! ### Whole searches -/

/-- In front of a part of a text, a round finds nothing more and neither does the walk, or both pass
over the same name to the part behind it. -/
theorem round_cases (before rest : List Char) :
    (round (encode (before ++ rest)) (encode before).length = .ok none ∧
      namesFrom (.between (before.getLast?.all opensName)) [] rest = []) ∨
    ∃ skipped name behind, rest = skipped ++ 'L' :: (name ++ ';' :: behind) ∧
      round (encode (before ++ rest)) (encode before).length =
        .ok (some
          { start := (encode (before ++ skipped)).length
            name := if (before ++ skipped).getLast?.all opensName then some (encode name) else none
            next := (encode (before ++ skipped ++ 'L' :: (name ++ [';']))).length }) ∧
      namesFrom (.between (before.getLast?.all opensName)) [] rest =
        (if (before ++ skipped).getLast?.all opensName then [name] else []) ++
          namesFrom (.between true) [] behind := by
  obtain hL | ⟨skipped, tail, rfl, hskipped⟩ := exists_eq_append_cons_or_not_mem 'L' rest
  · refine .inl ⟨round_encode_of_not_mem before hL, ?_⟩
    have hwalk := namesFrom_skip hL before [] []
    rw [List.append_nil] at hwalk
    rw [hwalk]
    rfl
  -- At the first `L` the walk goes inside a name, whether or not it counts.
  have hwalk : namesFrom (.between (before.getLast?.all opensName)) [] (skipped ++ 'L' :: tail) =
      namesFrom (.inside ((before ++ skipped).getLast?.all opensName) []) [] tail := by
    rw [namesFrom_skip hskipped, namesFrom, if_pos rfl]
  obtain hend | ⟨name, behind, rfl, hname⟩ := exists_eq_append_cons_or_not_mem ';' tail
  · refine .inl ⟨?_, ?_⟩
    · rw [round_encode before hskipped, roundFrom_encode_of_not_mem _ hend]
    · rw [hwalk, namesFrom_inside_of_not_mem hend]
      rfl
  · refine .inr ⟨skipped, name, behind, rfl, ?_, ?_⟩
    · rw [round_encode before hskipped, roundFrom_encode _ hname]
    · rw [hwalk, namesFrom_inside hname, namesFrom_eq_append]
      cases (before ++ skipped).getLast?.all opensName <;> rfl

/-- From any place in a text on, the search finds the names that the walk finds. -/
theorem namesAt_encode (before rest : List Char) :
    namesAt (encode (before ++ rest)) (encode before).length =
      .ok ((namesFrom (.between (before.getLast?.all opensName)) [] rest).map encode) := by
  induction hlength : rest.length using Nat.strong_induction_on generalizing before rest with
  | _ length ih =>
    obtain ⟨hround, hwalk⟩ | ⟨skipped, name, behind, hrest, hround, hwalk⟩ :=
      round_cases before rest
    · rw [namesAt_of_none hround, hwalk]
      rfl
    · -- The part behind the name is shorter, and its first character stands behind a `;`.
      have hshorter : behind.length < length := by
        rw [← hlength, hrest]
        simp only [List.length_append, List.length_cons]
        omega
      have htext : before ++ rest = before ++ skipped ++ 'L' :: (name ++ [';']) ++ behind := by
        rw [hrest]
        simp
      have hlast : (before ++ skipped ++ 'L' :: (name ++ [';'])).getLast?.all opensName = true := by
        rw [← List.cons_append, ← List.append_assoc, List.getLast?_concat]
        decide
      have hnames := ih behind.length hshorter (before ++ skipped ++ 'L' :: (name ++ [';']))
        behind rfl
      rw [← htext, hlast] at hnames
      rw [namesAt_of_some hround, bind_of_eq_ok hnames, hwalk, List.map_append]
      dsimp only
      cases (before ++ skipped).getLast?.all opensName <;> rfl

/-- Rounds begin in front of parts of the text. -/
theorem Reached.exists_append {text : List Char} {offset : Nat}
    (h : Reached (encode text) offset) :
    ∃ before rest, text = before ++ rest ∧ (encode before).length = offset := by
  induction h with
  | front => exact ⟨[], text, rfl, rfl⟩
  | next _ hround ih =>
    obtain ⟨before, rest, rfl, rfl⟩ := ih
    obtain ⟨hnone, -⟩ | ⟨skipped, name, behind, rfl, hsome, -⟩ := round_cases before rest
    · rw [hnone] at hround
      cases hround
    · rw [hsome] at hround
      obtain rfl := Option.some.inj (Except.ok.inj hround)
      exact ⟨before ++ skipped ++ 'L' :: (name ++ [';']), behind, by simp, rfl⟩

/-- The search by offsets finds what the walk over characters finds, for any text. It never asks for
bytes that are not to be had: every round begins at a boundary; the `L` that it finds is one of the
text, the byte in front of it is there unless the text begins with it, and tells the same as the
character in front of it; and the next round begins at least two bytes further on, not behind the
end. -/
theorem offsets_sound (text : List Char) :
    cleanNameAt (encode text) = .ok ((cleanName text).map encode) ∧
    namesAt (encode text) 0 = .ok ((descriptorNames text).map encode) ∧
    ∀ offset, Reached (encode text) offset →
      isBoundary (encode text) offset = true ∧
      (round (encode text) offset = .ok none ∨
        ∃ found front behind, round (encode text) offset = .ok (some found) ∧
          text = front ++ 'L' :: behind ∧ (encode front).length = found.start ∧
          opensAt (encode text) found.start = .ok (front.getLast?.all opensName) ∧
          offset + 2 ≤ found.next ∧ found.next ≤ (encode text).length) := by
  refine ⟨cleanNameAt_encode text, namesAt_encode [] text, fun offset hreached => ?_⟩
  obtain ⟨before, rest, rfl, rfl⟩ := hreached.exists_append
  refine ⟨isBoundary_encode_iff.mpr ⟨before, rest, rfl, rfl⟩, ?_⟩
  obtain ⟨hnone, -⟩ | ⟨skipped, name, behind, rfl, hsome, -⟩ := round_cases before rest
  · exact .inl hnone
  · refine .inr ⟨_, before ++ skipped, name ++ ';' :: behind, hsome, ?_, rfl, ?_,
      round_advances hsome⟩
    · rw [List.append_assoc]
    · dsimp only
      rw [← List.append_assoc]
      exact opensAt_encode (before ++ skipped) _

end JarAudit.Reference
