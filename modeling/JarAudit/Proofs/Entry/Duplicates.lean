import Mathlib.Data.List.Basic
import JarAudit.Entry.Duplicates

/-!
# Which entries are flagged as duplicates

The groups of a report are held in maps from paths and from checksums. `flagsOf_groupsByPath` reads
the maps off as counts over the list of entries, and `one_lt_countP_iff` turns a count above one
into a second position. Together they say that the flags of an entry tell of another position of the
list with the same path, and with the same path and checksum (`flags_of_getElem?_flagged`).
-/

namespace JarAudit

/-! ### Counting -/

/-- What holds of one item is counted more than once when it holds of an item at another position.
-/
theorem one_lt_countP_iff {α : Type} {p : α → Bool} {items : List α} {i : Nat} {item : α}
    (hitem : items[i]? = some item) (hp : p item = true) :
    1 < items.countP p ↔ ∃ j other, j ≠ i ∧ items[j]? = some other ∧ p other = true := by
  -- On the list, until the item is in front: whatever else counts then lies behind it.
  induction items generalizing i with
  | nil => cases hitem
  | cons first rest ih =>
    cases i with
    | zero =>
      obtain rfl := Option.some.inj hitem
      rw [List.countP_cons_of_pos hp, Nat.lt_add_left_iff_pos, List.countP_pos_iff]
      constructor
      · rintro ⟨other, hother, hpother⟩
        obtain ⟨j, hj⟩ := List.mem_iff_getElem?.mp hother
        exact ⟨j + 1, other, Nat.succ_ne_zero j, hj, hpother⟩
      · rintro ⟨j, other, hj, hother, hpother⟩
        obtain ⟨j, rfl⟩ := Nat.exists_eq_succ_of_ne_zero hj
        exact ⟨other, List.mem_of_getElem? hother, hpother⟩
    | succ i =>
      rw [List.getElem?_cons_succ] at hitem
      by_cases hfirst : p first = true
      · have hpos : 0 < rest.countP p :=
          List.countP_pos_iff.mpr ⟨item, List.mem_of_getElem? hitem, hp⟩
        rw [List.countP_cons_of_pos hfirst]
        exact ⟨fun _ => ⟨0, first, (Nat.succ_ne_zero i).symm, rfl, hfirst⟩, fun _ => by omega⟩
      · rw [List.countP_cons_of_neg hfirst, ih hitem]
        constructor
        · rintro ⟨j, other, hj, hother, hpother⟩
          exact ⟨j + 1, other, fun h => hj (Nat.succ.inj h), hother, hpother⟩
        · rintro ⟨j, other, hj, hother, hpother⟩
          cases j with
          | zero =>
            obtain rfl := Option.some.inj hother
            exact absurd hpother hfirst
          | succ j => exact ⟨j, other, fun h => hj (congrArg _ h), hother, hpother⟩

namespace DuplicateReport

/-! ### The groups -/

theorem getElem?_tally (numbers : List Nat) (number : Nat) :
    (tally numbers)[number]?.getD 0 = numbers.count number := by
  -- The counts that the fold starts from vary along the list.
  suffices hfold : ∀ counts : Std.TreeMap Nat Nat compare,
      (numbers.foldl (fun counts number =>
        counts.alter number fun count => some (count.getD 0 + 1)) counts)[number]?.getD 0 =
      counts[number]?.getD 0 + numbers.count number by
    rw [tally, hfold, Std.TreeMap.getElem?_emptyc, Option.getD_none, Nat.zero_add]
  induction numbers with
  | nil => exact fun counts => rfl
  | cons first rest ih =>
    intro counts
    rw [List.foldl_cons, ih, Std.TreeMap.getElem?_alter, List.count_cons]
    by_cases hfirst : first = number
    · subst hfirst
      rw [if_pos Std.ReflCmp.compare_self, Option.getD_some, beq_self_eq_true, if_pos rfl]
      omega
    · rw [if_neg (mt Std.LawfulEqCmp.eq_of_compare hfirst), beq_eq_false_iff_ne.mpr hfirst,
        if_neg Bool.false_ne_true, Nat.add_zero]

/-- Under each path stand the checksums of the entries that have it. -/
theorem getElem?_checksumsByPath (entries : List Entry) (path : String) :
    (checksumsByPath entries)[path]?.getD [] =
      ((entries.filter (·.fullPath == path)).map (·.checksum)).reverse := by
  -- Each checksum goes in front of those before it, so they come out in reverse.
  suffices hfold : ∀ paths : Std.TreeMap String (List Nat) compare,
      (entries.foldl (fun paths entry =>
        paths.alter entry.fullPath fun found => some (entry.checksum :: found.getD []))
          paths)[path]?.getD [] =
      ((entries.filter (·.fullPath == path)).map (·.checksum)).reverse ++ paths[path]?.getD [] by
    rw [checksumsByPath, hfold, Std.TreeMap.getElem?_emptyc, Option.getD_none, List.append_nil]
  induction entries with
  | nil => exact fun paths => rfl
  | cons first rest ih =>
    intro paths
    rw [List.foldl_cons, ih, Std.TreeMap.getElem?_alter]
    by_cases hfirst : first.fullPath = path
    · subst hfirst
      rw [if_pos Std.ReflCmp.compare_self, Option.getD_some, List.filter_cons,
        if_pos (beq_self_eq_true first.fullPath), List.map_cons, List.reverse_cons,
        List.append_assoc, List.singleton_append]
    · rw [if_neg (mt Std.LawfulEqCmp.eq_of_compare hfirst),
        List.filter_cons_of_neg (by rwa [beq_iff_eq])]

/-- The flags of an entry tell whether its path, and its path with its checksum, is counted more
than once. -/
theorem flagsOf_groupsByPath (entries : List Entry) (entry : Entry) :
    flagsOf (groupsByPath entries) entry =
      ⟨1 < entries.countP (·.fullPath == entry.fullPath),
        1 < entries.countP fun other =>
          other.checksum == entry.checksum && other.fullPath == entry.fullPath⟩ := by
  have hgroup : (groupsByPath entries)[entry.fullPath]?.getD {} = PathGroup.ofChecksums
      ((checksumsByPath entries)[entry.fullPath]?.getD []) := by
    rw [groupsByPath, Std.TreeMap.getElem?_map]
    cases (checksumsByPath entries)[entry.fullPath]? <;> rfl
  rw [flagsOf, hgroup, getElem?_checksumsByPath, PathGroup.ofChecksums]
  dsimp only
  rw [getElem?_tally, List.length_reverse, List.length_map, List.count_reverse, List.count,
    List.countP_map, List.countP_filter, ← List.countP_eq_length_filter]
  rfl

/-! ### Raising -/

end DuplicateReport

/-- An entry with both flags down. -/
def Entry.unflagged (entry : Entry) : Entry :=
  { entry with isNameMatch := false, isChecksumMatch := false }

namespace DuplicateReport

theorem raiseAll_map (flags : Entry → MatchFlags) (entries : List Entry) :
    (raiseAll (entries.map flags) entries).1 =
      entries.map fun entry => raise (flags entry) entry := by
  induction entries with
  | nil => rfl
  | cons entry rest ih =>
    rw [List.map_cons, List.map_cons, ← ih]
    rfl

/-- Entries with the flags raised that a report on them has. -/
def flagged (entries : List Entry) : List Entry := ((detect entries).apply entries).1

theorem flagged_eq (entries : List Entry) :
    flagged entries =
      entries.map fun entry => raise (flagsOf (groupsByPath entries) entry) entry :=
  raiseAll_map _ entries

theorem map_unflagged_flagged (entries : List Entry) :
    (flagged entries).map Entry.unflagged = entries.map Entry.unflagged := by
  rw [flagged_eq, List.map_map]
  rfl

/-- What is asked of entries regardless of their flags is counted as before. -/
theorem countP_flagged {p : Entry → Bool} (hp : ∀ flags entry, p (raise flags entry) = p entry)
    (entries : List Entry) : (flagged entries).countP p = entries.countP p := by
  rw [flagged_eq, List.countP_map]
  exact List.countP_congr fun entry _ => by rw [Function.comp_apply, hp]

variable {entries : List Entry} {entry : Entry}

/-- An entry whose flags were down is flagged for its counts in the list. -/
theorem flags_of_mem_flagged (hplain : ∀ entry ∈ entries, entry.unflagged = entry)
    (hentry : entry ∈ flagged entries) :
    (entry.isNameMatch = true ↔
      1 < (flagged entries).countP (·.fullPath == entry.fullPath)) ∧
    (entry.isChecksumMatch = true ↔ 1 < (flagged entries).countP fun other =>
      other.checksum == entry.checksum && other.fullPath == entry.fullPath) := by
  rw [countP_flagged fun _ _ => rfl, countP_flagged fun _ _ => rfl]
  rw [flagged_eq] at hentry
  obtain ⟨listed, hlisted, rfl⟩ := List.mem_map.mp hentry
  have hname : listed.isNameMatch = false := by rw [← hplain listed hlisted]; rfl
  have hchecksum : listed.isChecksumMatch = false := by rw [← hplain listed hlisted]; rfl
  rw [flagsOf_groupsByPath]
  simp only [raise, hname, hchecksum, Bool.false_or, decide_eq_true_eq, and_self]

/-- An entry whose flags were down is flagged when another position of the list has the same path,
and when one has the same path and checksum. -/
theorem flags_of_getElem?_flagged (hplain : ∀ entry ∈ entries, entry.unflagged = entry) {i : Nat}
    (hentry : (flagged entries)[i]? = some entry) :
    (entry.isNameMatch = true ↔ ∃ j other, j ≠ i ∧ (flagged entries)[j]? = some other ∧
      other.fullPath = entry.fullPath) ∧
    (entry.isChecksumMatch = true ↔ ∃ j other, j ≠ i ∧ (flagged entries)[j]? = some other ∧
      other.fullPath = entry.fullPath ∧ other.checksum = entry.checksum) := by
  obtain ⟨hname, hchecksum⟩ := flags_of_mem_flagged hplain (List.mem_of_getElem? hentry)
  constructor
  · rw [hname]
    refine (one_lt_countP_iff hentry (beq_self_eq_true entry.fullPath)).trans ?_
    simp only [beq_iff_eq]
  · rw [hchecksum]
    refine (one_lt_countP_iff hentry ?_).trans ?_
    · rw [beq_self_eq_true, beq_self_eq_true, Bool.and_self]
    · simp only [Bool.and_eq_true, beq_iff_eq, and_comm (a := _ = entry.checksum)]

end DuplicateReport

end JarAudit
