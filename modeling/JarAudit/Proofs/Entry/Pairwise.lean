import Mathlib.Data.List.Basic
import Std.Data.HashMap
import JarAudit.Proofs.Entry.Duplicates

/-!
# Duplicates by comparing all pairs

What the flags of a report should be is said by comparing each entry with each other one
(`IsPairwise`). There is one list of such flags (`IsPairwise.eq`), and three ways to it:

* `detect` counts the entries that share a path, and among these the checksums;
* `markPairs` visits every pair of places and raises flags at both;
* `markGroups` collects the places of each path in a hash map and sets the flags group by group, in
  the order in which the groups come out of the map.

For the second, what a run raises at a place is what its pairs with that place raise
(`getElem?_foldl_markPair`). For the third, a place is in one group only, so that the other groups
leave its flags alone, whenever their turn comes (`getElem?_foldl_markGroup`).
-/

namespace JarAudit.DuplicateReport

variable {entries : List Entry}

/-! ### Comparing each entry with each other -/

/-- Another entry has the same path. -/
def HasNamesake (entries : List Entry) (i : Fin entries.length) : Prop :=
  ∃ j : Fin entries.length, j ≠ i ∧ entries[j].fullPath = entries[i].fullPath

/-- Another entry has the same path and the same checksum. -/
def HasTwin (entries : List Entry) (i : Fin entries.length) : Prop :=
  ∃ j : Fin entries.length, j ≠ i ∧ entries[j].fullPath = entries[i].fullPath ∧
    entries[j].checksum = entries[i].checksum

instance (i : Fin entries.length) : Decidable (HasNamesake entries i) :=
  inferInstanceAs (Decidable (∃ _, _))

instance (i : Fin entries.length) : Decidable (HasTwin entries i) :=
  inferInstanceAs (Decidable (∃ _, _))

theorem HasTwin.hasNamesake {i : Fin entries.length} (h : HasTwin entries i) :
    HasNamesake entries i := by
  obtain ⟨j, hj, hpath, -⟩ := h
  exact ⟨j, hj, hpath⟩

/-- There is one pair of flags for each entry. The first is raised when another entry has the same
path, the second when another entry has the same path and checksum. -/
structure IsPairwise (entries : List Entry) (flags : List MatchFlags) : Prop where
  length : flags.length = entries.length
  flags : ∀ i : Fin entries.length, ∃ found, flags[i.val]? = some found ∧
    (found.name = true ↔ HasNamesake entries i) ∧ (found.checksum = true ↔ HasTwin entries i)

theorem IsPairwise.eq {flags others : List MatchFlags} (h : IsPairwise entries flags)
    (hothers : IsPairwise entries others) : flags = others := by
  apply List.ext_getElem?
  intro i
  by_cases hi : i < entries.length
  · obtain ⟨found, hfound, hname, hchecksum⟩ := h.flags ⟨i, hi⟩
    obtain ⟨other, hother, hname', hchecksum'⟩ := hothers.flags ⟨i, hi⟩
    have hsameName : found.name = other.name := Bool.eq_iff_iff.mpr (hname.trans hname'.symm)
    have hsameChecksum : found.checksum = other.checksum :=
      Bool.eq_iff_iff.mpr (hchecksum.trans hchecksum'.symm)
    rw [hfound, hother, Option.some.injEq, MatchFlags.mk.injEq]
    exact ⟨hsameName, hsameChecksum⟩
  · have hlength := h.length
    have hlength' := hothers.length
    rw [List.getElem?_eq_none (by omega), List.getElem?_eq_none (by omega)]

/-- As many flags are raised as there are entries with a namesake, and with a twin. -/
theorem IsPairwise.countP_flags {flags : List MatchFlags} (h : IsPairwise entries flags) :
    flags.countP (·.name) = (List.finRange entries.length).countP (HasNamesake entries ·) ∧
      flags.countP (·.checksum) = (List.finRange entries.length).countP (HasTwin entries ·) := by
  have hflags : flags = (List.finRange entries.length).map fun i =>
      ⟨decide (HasNamesake entries i), decide (HasTwin entries i)⟩ := by
    refine h.eq ⟨by rw [List.length_map, List.length_finRange], fun i => ?_⟩
    refine ⟨⟨decide (HasNamesake entries i), decide (HasTwin entries i)⟩, ?_, ?_⟩
    · rw [List.getElem?_map, List.getElem?_eq_getElem (by simp), List.getElem_finRange]
      rfl
    · simp only [decide_eq_true_eq, and_self]
  rw [hflags, List.countP_map, List.countP_map]
  exact ⟨rfl, rfl⟩

/-! ### Counting -/

/-- `one_lt_countP_iff`, with the places of the list. -/
theorem one_lt_countP_iff_exists_fin {p : Entry → Bool} (i : Fin entries.length)
    (hp : p entries[i] = true) :
    1 < entries.countP p ↔ ∃ j : Fin entries.length, j ≠ i ∧ p entries[j] = true := by
  have hplace : entries[i.val]? = some entries[i] := List.getElem?_eq_getElem i.isLt
  rw [one_lt_countP_iff hplace hp]
  constructor
  · rintro ⟨j, other, hj, hother, hpother⟩
    obtain ⟨hlt, rfl⟩ := List.getElem?_eq_some_iff.mp hother
    exact ⟨⟨j, hlt⟩, fun heq => hj (congrArg Fin.val heq), hpother⟩
  · rintro ⟨j, hj, hpj⟩
    exact ⟨j, entries[j], fun heq => hj (Fin.ext heq), List.getElem?_eq_getElem j.isLt, hpj⟩

theorem one_lt_countP_fullPath (i : Fin entries.length) :
    1 < entries.countP (·.fullPath == entries[i].fullPath) ↔ HasNamesake entries i := by
  rw [one_lt_countP_iff_exists_fin (p := (·.fullPath == entries[i].fullPath)) i
    (beq_self_eq_true _)]
  simp only [beq_iff_eq]
  rfl

/-- Counting paths and checksums comes to the same as comparing. -/
theorem isPairwise_detect (entries : List Entry) : IsPairwise entries (detect entries).flags := by
  refine ⟨List.length_map .., fun i => ⟨flagsOf (groupsByPath entries) entries[i], ?_, ?_⟩⟩
  · show (entries.map (flagsOf (groupsByPath entries)))[i.val]? = _
    rw [List.getElem?_map, List.getElem?_eq_getElem i.isLt]
    rfl
  · rw [flagsOf_groupsByPath, decide_eq_true_eq, decide_eq_true_eq]
    refine ⟨one_lt_countP_fullPath i, (one_lt_countP_iff_exists_fin i ?_).trans ?_⟩
    · rw [beq_self_eq_true, beq_self_eq_true, Bool.and_self]
    · simp only [Bool.and_eq_true, beq_iff_eq, and_comm (a := _ = entries[i].checksum)]
      rfl

/-- The flags of an entry depend on what paths and checksums there are, and how often: not on the
order of the entries, nor on flags that are raised already. -/
theorem flagsOf_groupsByPath_congr {others : List Entry}
    (h : (others.map Entry.unflagged).Perm (entries.map Entry.unflagged)) :
    flagsOf (groupsByPath others) = flagsOf (groupsByPath entries) := by
  have hcount : ∀ p : Entry → Bool, (∀ entry : Entry, p entry.unflagged = p entry) →
      others.countP p = entries.countP p := by
    intro p hp
    have hplain : ∀ items : List Entry, items.countP p = (items.map Entry.unflagged).countP p := by
      intro items
      rw [List.countP_map]
      exact List.countP_congr fun entry _ => by rw [Function.comp_apply, hp]
    rw [hplain, hplain entries, h.countP_eq]
  funext entry
  rw [flagsOf_groupsByPath, flagsOf_groupsByPath, hcount _ fun _ => rfl, hcount _ fun _ => rfl]

theorem detect_congr {others : List Entry}
    (h : others.map Entry.unflagged = entries.map Entry.unflagged) :
    detect others = detect entries := by
  have hplain : ∀ items : List Entry, items.map (flagsOf (groupsByPath entries)) =
      (items.map Entry.unflagged).map (flagsOf (groupsByPath entries)) := by
    intro items
    rw [List.map_map]
    rfl
  unfold detect
  rw [flagsOf_groupsByPath_congr (List.Perm.of_eq h), hplain, hplain entries, h]

/-- Taking all items of a list place by place gives the list. -/
theorem filterMap_getElem?_range {α : Type} (items : List α) :
    (List.range items.length).filterMap (items[·]?) = items := by
  induction items with
  | nil => rfl
  | cons first rest ih =>
    rw [List.length_cons, List.range_succ_eq_map, List.filterMap_cons, List.filterMap_map]
    simpa using ih

/-- Entries in another order have their flags in that order. -/
theorem flags_detect_reordered {order : List Nat}
    (horder : order.Perm (List.range entries.length)) :
    (detect (order.filterMap (entries[·]?))).flags =
      order.filterMap ((detect entries).flags[·]?) := by
  have hperm : (order.filterMap (entries[·]?)).Perm entries := by
    have hfilter := horder.filterMap (entries[·]?)
    rwa [filterMap_getElem?_range] at hfilter
  show (order.filterMap (entries[·]?)).map (flagsOf (groupsByPath _)) =
    order.filterMap ((entries.map (flagsOf (groupsByPath entries)))[·]?)
  rw [flagsOf_groupsByPath_congr (hperm.map _), List.map_filterMap]
  simp only [List.getElem?_map]

/-! ### Pair by pair -/

/-- The flags that are raised on both of two entries. -/
def matching (a b : Entry) : MatchFlags :=
  if a.fullPath = b.fullPath then ⟨true, a.checksum == b.checksum⟩ else {}

/-- Flags with those raised that were found. -/
def join (flags found : MatchFlags) : MatchFlags :=
  ⟨flags.name || found.name, flags.checksum || found.checksum⟩

/-- All pairs of places, the lower one first. -/
def pairsBelow (n : Nat) : List (Fin n × Fin n) :=
  (List.finRange n).flatMap fun i => ((List.finRange n).filter (i < ·)).map (i, ·)

/-- Compares the entries at two places and raises flags at both. -/
def markPair (entries : List Entry) (flags : List MatchFlags)
    (pair : Fin entries.length × Fin entries.length) : List MatchFlags :=
  let found := matching entries[pair.1] entries[pair.2]
  (flags.modify pair.1 (join · found)).modify pair.2 (join · found)

/-- Visits every pair of places. -/
def markPairs (entries : List Entry) : List MatchFlags :=
  (pairsBelow entries.length).foldl (markPair entries) (entries.map fun _ => {})

/-- A pair has a place. -/
def touches {n : Nat} (k : Fin n) (pair : Fin n × Fin n) : Bool :=
  decide (pair.1 = k) || decide (pair.2 = k)

theorem mem_pairsBelow {n : Nat} {i j : Fin n} : (i, j) ∈ pairsBelow n ↔ i < j := by
  simp [pairsBelow]

theorem name_matching (a b : Entry) : (matching a b).name = true ↔ a.fullPath = b.fullPath := by
  unfold matching
  split <;> simp [*]

theorem checksum_matching (a b : Entry) :
    (matching a b).checksum = true ↔ a.fullPath = b.fullPath ∧ a.checksum = b.checksum := by
  unfold matching
  split <;> simp [*]

/-- Visiting a pair raises what was found at its two places and nothing elsewhere. -/
theorem getElem?_markPair (flags : List MatchFlags) (pair : Fin entries.length × Fin entries.length)
    (k : Fin entries.length) :
    (markPair entries flags pair)[k.val]? = flags[k.val]?.map fun old =>
      ⟨old.name || (touches k pair && (matching entries[pair.1] entries[pair.2]).name),
        old.checksum ||
          (touches k pair && (matching entries[pair.1] entries[pair.2]).checksum)⟩ := by
  obtain ⟨i, j⟩ := pair
  simp only [markPair, List.getElem?_modify, Option.map_eq_map, Option.map_map]
  congr 1
  funext old
  by_cases hi : i = k <;> by_cases hj : j = k <;>
    simp [touches, join, hi, hj, Fin.val_inj]

/-- What is raised at a place is what the pairs with that place raise. -/
theorem getElem?_foldl_markPair (pairs : List (Fin entries.length × Fin entries.length))
    (flags : List MatchFlags) (k : Fin entries.length) :
    (pairs.foldl (markPair entries) flags)[k.val]? = flags[k.val]?.map fun old =>
      ⟨old.name ||
          pairs.any fun pair => touches k pair && (matching entries[pair.1] entries[pair.2]).name,
        old.checksum || pairs.any fun pair =>
          touches k pair && (matching entries[pair.1] entries[pair.2]).checksum⟩ := by
  induction pairs generalizing flags with
  | nil => simp
  | cons pair rest ih =>
    rw [List.foldl_cons, ih, getElem?_markPair, Option.map_map]
    simp only [Function.comp_def, List.any_cons, Bool.or_assoc]

theorem length_foldl_markPair (pairs : List (Fin entries.length × Fin entries.length))
    (flags : List MatchFlags) : (pairs.foldl (markPair entries) flags).length = flags.length := by
  induction pairs generalizing flags with
  | nil => rfl
  | cons pair rest ih =>
    rw [List.foldl_cons, ih, markPair, List.length_modify, List.length_modify]

/-- The pairs with a place are those of the place and each other one. -/
theorem any_touches_iff {p : Entry → Entry → Bool} (hp : ∀ a b, p a b = p b a)
    (k : Fin entries.length) :
    ((pairsBelow entries.length).any
        fun pair => touches k pair && p entries[pair.1] entries[pair.2]) = true ↔
      ∃ j : Fin entries.length, j ≠ k ∧ p entries[j] entries[k] = true := by
  simp only [List.any_eq_true, Bool.and_eq_true, touches, Bool.or_eq_true, decide_eq_true_eq]
  constructor
  · rintro ⟨⟨i, j⟩, hpair, rfl | rfl, hmatch⟩
    · exact ⟨j, Fin.ne_of_gt (mem_pairsBelow.mp hpair), hp .. ▸ hmatch⟩
    · exact ⟨i, Fin.ne_of_lt (mem_pairsBelow.mp hpair), hmatch⟩
  · rintro ⟨j, hne, hmatch⟩
    rcases Nat.lt_or_gt_of_ne (Fin.val_ne_of_ne hne) with hlt | hgt
    · exact ⟨(j, k), mem_pairsBelow.mpr hlt, .inr rfl, hmatch⟩
    · exact ⟨(k, j), mem_pairsBelow.mpr hgt, .inl rfl, hp .. ▸ hmatch⟩

/-- Before anything was visited no flag is raised. -/
theorem getElem?_blank (i : Fin entries.length) :
    (entries.map fun _ => ({} : MatchFlags))[i.val]? = some {} := by
  rw [List.getElem?_map, List.getElem?_eq_getElem i.isLt, Option.map_some]

theorem isPairwise_markPairs (entries : List Entry) : IsPairwise entries (markPairs entries) := by
  refine ⟨?_, fun i => ?_⟩
  · rw [markPairs, length_foldl_markPair, List.length_map]
  · have hvisited := getElem?_foldl_markPair (pairsBelow entries.length)
      (entries.map fun _ => ({} : MatchFlags)) i
    rw [getElem?_blank, Option.map_some] at hvisited
    refine ⟨_, hvisited, ?_, ?_⟩
    · refine (any_touches_iff (p := fun a b => (matching a b).name) ?_ i).trans ?_
      · intro a b
        rw [Bool.eq_iff_iff, name_matching, name_matching, eq_comm]
      · simp only [name_matching]
        rfl
    · refine (any_touches_iff (p := fun a b => (matching a b).checksum) ?_ i).trans ?_
      · intro a b
        rw [Bool.eq_iff_iff, checksum_matching, checksum_matching, eq_comm,
          eq_comm (a := a.checksum)]
      · simp only [checksum_matching]
        rfl

/-! ### Group by group -/

/-- The places of the entries under each full path. -/
def placesByPath (entries : List Entry) : Std.HashMap String (List Nat) :=
  entries.zipIdx.foldl (fun paths (entry, i) =>
    paths.alter entry.fullPath fun found => some (found.getD [] ++ [i])) ∅

/-- The flags of an entry in a group of places: the name is shared, and the checksum if another
place of the group has it. -/
def flagsWithin (entries : List Entry) (group : List Nat) (i : Nat) : MatchFlags :=
  ⟨true, group.any fun j =>
    j != i && entries[j]?.map (·.checksum) == entries[i]?.map (·.checksum)⟩

/-- Sets the flags of a group of places, if there is more than one. -/
def markGroup (entries : List Entry) (flags : List MatchFlags) (group : List Nat) :
    List MatchFlags :=
  if 1 < group.length then
    group.foldl (fun flags i => flags.set i (flagsWithin entries group i)) flags
  else flags

/-- Visits groups of places in the given order. -/
def markGroups (entries : List Entry) (groups : List (List Nat)) : List MatchFlags :=
  groups.foldl (markGroup entries) (entries.map fun _ => {})

/-- The places of the entries that have a path, in order. -/
def placesOf (entries : List Entry) (path : String) : List Nat :=
  (entries.zipIdx.filter (·.1.fullPath == path)).map (·.2)

theorem mem_placesOf {path : String} {i : Nat} :
    i ∈ placesOf entries path ↔ ∃ entry, entries[i]? = some entry ∧ entry.fullPath = path := by
  simp [placesOf, List.mem_zipIdx_iff_getElem?]

theorem mem_placesOf_fullPath (i : Fin entries.length) :
    i.val ∈ placesOf entries entries[i].fullPath :=
  mem_placesOf.mpr ⟨entries[i], List.getElem?_eq_getElem i.isLt, rfl⟩

theorem length_placesOf (entries : List Entry) (path : String) :
    (placesOf entries path).length = entries.countP (·.fullPath == path) := by
  have hentries : entries.zipIdx.map Prod.fst = entries := List.zipIdx_map_fst 0 entries
  conv_rhs => rw [← hentries, List.countP_map]
  rw [placesOf, List.length_map, ← List.countP_eq_length_filter]
  rfl

theorem getElem?_placesByPath (entries : List Entry) (path : String) :
    (placesByPath entries)[path]?.getD [] = placesOf entries path := by
  unfold placesByPath placesOf
  -- The places that are in the map already vary along the list.
  suffices hfold : ∀ (items : List (Entry × Nat)) (paths : Std.HashMap String (List Nat)),
      (items.foldl (fun paths (entry, i) =>
        paths.alter entry.fullPath fun found => some (found.getD [] ++ [i])) paths)[path]?.getD [] =
      paths[path]?.getD [] ++ (items.filter (·.1.fullPath == path)).map (·.2) by
    rw [hfold, Std.HashMap.getElem?_empty, Option.getD_none, List.nil_append]
  intro items
  induction items with
  | nil => intro paths; simp
  | cons item rest ih =>
    intro paths
    rw [List.foldl_cons, ih, Std.HashMap.getElem?_alter]
    by_cases hpath : item.1.fullPath = path
    · simp [hpath]
    · simp [hpath]

/-- The map has a group for the path of each entry. -/
theorem getElem?_placesByPath_fullPath (i : Fin entries.length) :
    (placesByPath entries)[entries[i].fullPath]? =
      some (placesOf entries entries[i].fullPath) := by
  have hgroup := getElem?_placesByPath entries entries[i].fullPath
  have hmem := mem_placesOf_fullPath i
  cases hfound : (placesByPath entries)[entries[i].fullPath]? with
  | none =>
    rw [hfound, Option.getD_none] at hgroup
    rw [← hgroup] at hmem
    cases hmem
  | some group => rw [← hgroup, hfound, Option.getD_some]

/-- Setting what stands at some places sets it there and nowhere else. -/
theorem getElem?_foldl_set {α : Type} (value : Nat → α) (places : List Nat) (items : List α)
    (k : Nat) :
    (places.foldl (fun items i => items.set i (value i)) items)[k]? =
      if k ∈ places then items[k]?.map fun _ => value k else items[k]? := by
  induction places generalizing items with
  | nil => simp
  | cons i rest ih =>
    rw [List.foldl_cons, ih, List.getElem?_set]
    by_cases hi : i = k
    · subst hi
      by_cases hlt : i < items.length <;> simp [hlt]
    · simp [hi, Ne.symm hi]

theorem length_foldl_set {α : Type} (value : Nat → α) (places : List Nat) (items : List α) :
    (places.foldl (fun items i => items.set i (value i)) items).length = items.length := by
  induction places generalizing items with
  | nil => rfl
  | cons i rest ih => rw [List.foldl_cons, ih, List.length_set]

/-- Visiting a group sets the flags of its places, if it has more than one. -/
theorem getElem?_markGroup (flags : List MatchFlags) (group : List Nat) (k : Nat) :
    (markGroup entries flags group)[k]? =
      if k ∈ group ∧ 1 < group.length then flags[k]?.map fun _ => flagsWithin entries group k
      else flags[k]? := by
  unfold markGroup
  split
  case isTrue h => rw [getElem?_foldl_set]; simp only [h, and_true]
  case isFalse h => simp only [h, and_false, if_false]

theorem length_markGroups (entries : List Entry) (groups : List (List Nat)) :
    (markGroups entries groups).length = entries.length := by
  suffices hfold : ∀ flags : List MatchFlags,
      (groups.foldl (markGroup entries) flags).length = flags.length by
    rw [markGroups, hfold, List.length_map]
  induction groups with
  | nil => exact fun flags => rfl
  | cons group rest ih =>
    intro flags
    rw [List.foldl_cons, ih]
    unfold markGroup
    split
    · exact length_foldl_set ..
    · rfl

/-- A place that is in one group only has the flags that this group sets, whatever the order. -/
theorem getElem?_foldl_markGroup {groups : List (List Nat)} {home : List Nat} {k : Nat}
    (hhome : ∀ group ∈ groups, k ∈ group → group = home) (flags : List MatchFlags) :
    (groups.foldl (markGroup entries) flags)[k]? =
      if home ∈ groups ∧ k ∈ home ∧ 1 < home.length then
        flags[k]?.map fun _ => flagsWithin entries home k
      else flags[k]? := by
  induction groups generalizing flags with
  | nil => simp
  | cons group rest ih =>
    rw [List.foldl_cons, ih fun other hother => hhome other (List.mem_cons_of_mem _ hother),
      getElem?_markGroup]
    by_cases hk : k ∈ group
    · obtain rfl := hhome group List.mem_cons_self hk
      by_cases hlength : 1 < group.length
      · by_cases hrest : group ∈ rest <;> simp [hk, hlength, hrest, Function.comp_def]
      · simp [hlength]
    · by_cases hmem : k ∈ home
      · have hne : home ≠ group := fun heq => hk (heq ▸ hmem)
        simp [hk, hne]
      · simp [hk, hmem]

/-- Another place of the group has the same checksum if and only if the entry has a twin. -/
theorem checksum_flagsWithin (i : Fin entries.length) :
    (flagsWithin entries (placesOf entries entries[i].fullPath) i).checksum = true ↔
      HasTwin entries i := by
  have hplace : entries[i.val]? = some entries[i] := List.getElem?_eq_getElem i.isLt
  simp only [flagsWithin, hplace, List.any_eq_true, mem_placesOf, Bool.and_eq_true, bne_iff_ne,
    beq_iff_eq, Option.map_some, Option.map_eq_some_iff]
  constructor
  · rintro ⟨j, ⟨other, hother, hpath⟩, hne, same, hsame, hchecksum⟩
    obtain ⟨hlt, rfl⟩ := List.getElem?_eq_some_iff.mp hother
    obtain rfl := Option.some.inj (hother.symm.trans hsame)
    exact ⟨⟨j, hlt⟩, fun heq => hne (congrArg Fin.val heq), hpath, hchecksum⟩
  · rintro ⟨j, hne, hpath, hchecksum⟩
    have hother : entries[j.val]? = some entries[j] := List.getElem?_eq_getElem j.isLt
    exact ⟨j, ⟨_, hother, hpath⟩, fun heq => hne (Fin.ext heq), _, hother, hchecksum⟩

/-- The groups make the same flags in whatever order they come out of the map. -/
theorem isPairwise_markGroups {order : List (String × List Nat)}
    (horder : order.Perm (placesByPath entries).toList) :
    IsPairwise entries (markGroups entries (order.map (·.2))) := by
  refine ⟨length_markGroups .., fun i => ?_⟩
  have hmem : ∀ (path : String) (group : List Nat),
      (path, group) ∈ order ↔ (placesByPath entries)[path]? = some group := by
    intro path group
    rw [horder.mem_iff, Std.HashMap.mem_toList_iff_getElem?_eq_some]
  -- The only group with the place is that of the entry's path.
  have hhome : ∀ group ∈ order.map (·.2), i.val ∈ group →
      group = placesOf entries entries[i].fullPath := by
    intro group hgroup hi
    obtain ⟨⟨path, _⟩, hpath, rfl⟩ := List.mem_map.mp hgroup
    have hfound := getElem?_placesByPath entries path
    rw [(hmem ..).mp hpath, Option.getD_some] at hfound
    rw [hfound] at hi
    obtain ⟨entry, hentry, rfl⟩ := mem_placesOf.mp hi
    obtain ⟨_, rfl⟩ := List.getElem?_eq_some_iff.mp hentry
    exact hfound
  have hlisted : placesOf entries entries[i].fullPath ∈ order.map (·.2) :=
    List.mem_map_of_mem (f := (·.2)) ((hmem ..).mpr (getElem?_placesByPath_fullPath i))
  have hmarked : (markGroups entries (order.map (·.2)))[i.val]? = _ :=
    getElem?_foldl_markGroup hhome _
  rw [getElem?_blank, Option.map_some] at hmarked
  have hnamesake := one_lt_countP_fullPath i
  rw [← length_placesOf] at hnamesake
  by_cases hlength : 1 < (placesOf entries entries[i].fullPath).length
  · rw [if_pos ⟨hlisted, mem_placesOf_fullPath i, hlength⟩] at hmarked
    exact ⟨_, hmarked, iff_of_true rfl (hnamesake.mp hlength), checksum_flagsWithin i⟩
  · rw [if_neg fun h => hlength h.2.2] at hmarked
    have halone : ¬HasNamesake entries i := fun h => hlength (hnamesake.mpr h)
    exact ⟨_, hmarked, iff_of_false Bool.false_ne_true halone,
      iff_of_false Bool.false_ne_true fun h => halone h.hasNamesake⟩

/-! ### The report -/

/-- The detector says of each entry whether another one has the same path, and the same path and
checksum, and how many entries there are of either kind. Visiting every pair of entries comes to the
same, and so does visiting the groups of a hash map in any order. Flags that are raised already do
not count, and entries in another order have their flags in that order. -/
theorem detect_pairwise (entries : List Entry) :
    IsPairwise entries (detect entries).flags ∧
      markPairs entries = (detect entries).flags ∧
      (∀ order : List (String × List Nat), order.Perm (placesByPath entries).toList →
        markGroups entries (order.map (·.2)) = (detect entries).flags) ∧
      (detect entries).nameMatches =
        (List.finRange entries.length).countP (HasNamesake entries ·) ∧
      (detect entries).checksumMatches =
        (List.finRange entries.length).countP (HasTwin entries ·) ∧
      (∀ others : List Entry, others.map Entry.unflagged = entries.map Entry.unflagged →
        detect others = detect entries) ∧
      ∀ order : List Nat, order.Perm (List.range entries.length) →
        (detect (order.filterMap (entries[·]?))).flags =
          order.filterMap ((detect entries).flags[·]?) := by
  have hdetect := isPairwise_detect entries
  obtain ⟨hnames, hchecksums⟩ := hdetect.countP_flags
  refine ⟨hdetect, (isPairwise_markPairs entries).eq hdetect, ?_, hnames, hchecksums, ?_, ?_⟩
  · intro order horder
    exact (isPairwise_markGroups horder).eq hdetect
  · intro others hothers
    exact detect_congr hothers
  · intro order horder
    exact flags_detect_reordered horder

end JarAudit.DuplicateReport
