import Mathlib.Data.List.Dedup
import JarAudit.Proofs.ClassFile.Extension
import JarAudit.Proofs.ClassFile.Loop
import JarAudit.Reference.Scan

/-!
# The scan for references against the outline

A scan and the reading of an outline go through the same constants, each in a loop of its own and
with records of its own. `Lockstep` says that two steps keep to the same places and faults and keep
their records related; the relation is `Tracks`, which says what a scan has noted of a pool.
It follows that a scan fails exactly when the outline is not read to the end of its constants, and
that its answer can be computed from the outline (`visibleReferences`).
-/

namespace JarAudit.Reference

open JarAudit.ClassFile JarAudit.ClassFile.Reader

/-! ### Steps in lockstep -/

section Lockstep

variable {σ τ α β : Type} {R S T : σ → τ → Prop}

/-- Two runs end alike. When they succeed, their records are related. -/
inductive Agrees (S : σ → τ → Prop) :
    EStateM.Result Fault (Cursor × σ) α → EStateM.Result Fault (Cursor × τ) α → Prop
  | ok (a : α) (next : Cursor) (record : σ) (other : τ) (h : S record other) :
    Agrees S (.ok a (next, record)) (.ok a (next, other))
  | error (fault : Fault) (next : Cursor) (record : σ) (other : τ) :
    Agrees S (.error fault (next, record)) (.error fault (next, other))

/-- From related records, two steps end alike at every place. -/
def Lockstep (R S : σ → τ → Prop) (m : Reader σ α) (m' : Reader τ α) : Prop :=
  ∀ cursor record other, R record other → Agrees S (m (cursor, record)) (m' (cursor, other))

theorem Lockstep.bind {m : Reader σ α} {m' : Reader τ α} {f : α → Reader σ β}
    {f' : α → Reader τ β} (hm : Lockstep R S m m') (hf : ∀ a, Lockstep S T (f a) (f' a)) :
    Lockstep R T (m >>= f) (m' >>= f') := by
  intro cursor record other h
  have hruns := hm cursor record other h
  rw [bind_run, bind_run]
  generalize m (cursor, record) = run at hruns ⊢
  generalize m' (cursor, other) = run' at hruns ⊢
  cases hruns with
  | ok a next record other h => exact hf a next record other h
  | error fault next record other => exact .error fault next record other

theorem Lockstep.imp {R' S' : σ → τ → Prop} {m : Reader σ α} {m' : Reader τ α}
    (hm : Lockstep R S m m') (hR : ∀ record other, R' record other → R record other)
    (hS : ∀ record other, S record other → S' record other) : Lockstep R' S' m m' := by
  intro cursor record other h
  have hruns := hm cursor record other (hR record other h)
  generalize m (cursor, record) = run at hruns ⊢
  generalize m' (cursor, other) = run' at hruns ⊢
  cases hruns with
  | ok a next record other h => exact .ok a next record other (hS record other h)
  | error fault next record other => exact .error fault next record other

/-- Steps that leave the records alone keep them related. -/
theorem Lockstep.of_parallel {m : Reader σ α} {m' : Reader τ α} (h : Parallel m m') :
    Lockstep R R m m' := by
  intro cursor record other hrecords
  rcases h.run_cases cursor record other with ⟨a, next, hm, hm'⟩ | ⟨fault, next, hm, hm'⟩
  · rw [hm, hm']
    exact .ok a next record other hrecords
  · rw [hm, hm']
    exact .error fault next record other

theorem Lockstep.note {g : σ → σ} {g' : τ → τ}
    (h : ∀ record other, R record other → S (g record) (g' other)) :
    Lockstep R S (note g) (note g') :=
  fun cursor record other hrecords => .ok () cursor _ _ (h record other hrecords)

/-- A note in one record alone does not take the steps apart. -/
theorem Lockstep.note_left {g : σ → σ} {m : Reader σ β} {m' : Reader τ β}
    (hg : ∀ record other, R record other → S (g record) other) (hm : Lockstep S T m m') :
    Lockstep R T (Reader.note g >>= fun _ => m) m' :=
  fun cursor record other hrecords => hm cursor (g record) other (hg record other hrecords)

end Lockstep

/-! ### What a scan knows of a pool -/

/-- A pool has a constant at some index. -/
def Holds (pool : Pool) (constant : Constant) : Prop := ∃ index, pool.get? index = some constant

theorem holds_insert {pool : Pool} {slot : UInt16} {constant other : Constant}
    (hfree : pool.get? slot = none) :
    Holds (pool.insert slot constant) other ↔ other = constant ∨ Holds pool other := by
  constructor
  · rintro ⟨index, hindex⟩
    rw [Pool.get?_insert] at hindex
    split at hindex
    · exact .inl (Option.some.inj hindex).symm
    · exact .inr ⟨index, hindex⟩
  · rintro (rfl | ⟨index, hindex⟩)
    · exact ⟨slot, by rw [Pool.get?_insert, if_pos rfl]⟩
    · have hne : slot ≠ index := by
        rintro rfl
        rw [hfree] at hindex
        cases hindex
      exact ⟨index, by rw [Pool.get?_insert, if_neg hne, hindex]⟩

/-- What a scan has noted is what the constants of a pool say: all texts, the indices of class names,
and the indices of descriptors if they are searched. -/
structure Tracks (searchDescriptors : Bool) (pool : Pool) (findings : Findings) : Prop where
  texts : ∀ index : UInt16, findings.texts[index]? = pool.utf8 index
  classNames : ∀ name, name ∈ findings.classNames ↔ Holds pool (.classRef name)
  descriptors : ∀ descriptor, descriptor ∈ findings.descriptors ↔
    searchDescriptors = true ∧ ∃ name, Holds pool (.nameAndType ⟨name, descriptor⟩)

namespace Tracks

variable {searchDescriptors : Bool} {pool : Pool} {findings : Findings} {slot : UInt16}

theorem of_free (h : ∀ index, pool.get? index = none) : Tracks searchDescriptors pool {} where
  texts index := by rw [Pool.utf8, h index]; rfl
  classNames name := by
    have hholds : ¬ Holds pool (.classRef name) := by
      rintro ⟨index, hindex⟩
      rw [h index] at hindex
      cases hindex
    simp only [Std.TreeSet.not_mem_emptyc, hholds]
  descriptors descriptor := by
    have hholds : ¬ ∃ name, Holds pool (.nameAndType ⟨name, descriptor⟩) := by
      rintro ⟨name, index, hindex⟩
      rw [h index] at hindex
      cases hindex
    simp only [Std.TreeSet.not_mem_emptyc, hholds, and_false]

/-- A constant that is no text changes no text, when its index was free. -/
theorem utf8_insert_of_ne {constant : Constant} (hfree : pool.get? slot = none)
    (hconstant : ∀ text, constant ≠ .utf8 text) (index : UInt16) :
    (pool.insert slot constant).utf8 index = pool.utf8 index := by
  rw [Pool.utf8, Pool.utf8, Pool.get?_insert]
  by_cases hindex : slot = index
  · rw [if_pos hindex, ← hindex, hfree]
    cases constant with
    | utf8 text => exact absurd rfl (hconstant text)
    | _ => rfl
  · rw [if_neg hindex]

/-- Noting a constant keeps up with putting it at a free index. -/
theorem add (h : Tracks searchDescriptors pool findings) (hfree : pool.get? slot = none)
    (constant : Constant) :
    Tracks searchDescriptors (pool.insert slot constant)
      (findings.add searchDescriptors slot constant) := by
  -- Nothing changes for constants of another kind than the one that is added.
  have htexts : (∀ text, constant ≠ .utf8 text) → ∀ index,
      findings.texts[index]? = (pool.insert slot constant).utf8 index := by
    intro hconstant index
    rw [utf8_insert_of_ne hfree hconstant, h.texts]
  have hclassNames : (∀ name, constant ≠ .classRef name) → ∀ name,
      name ∈ findings.classNames ↔ Holds (pool.insert slot constant) (.classRef name) := by
    intro hconstant name
    rw [holds_insert hfree, h.classNames, or_iff_right (Ne.symm (hconstant name))]
  have hdescriptors : (∀ pair, constant ≠ .nameAndType pair) → ∀ descriptor,
      descriptor ∈ findings.descriptors ↔ searchDescriptors = true ∧
        ∃ name, Holds (pool.insert slot constant) (.nameAndType ⟨name, descriptor⟩) := by
    intro hconstant descriptor
    simp only [holds_insert hfree, h.descriptors, Ne.symm (hconstant _), false_or]
  cases constant with
  | utf8 text =>
    refine ⟨fun index => ?_, hclassNames (by simp), hdescriptors (by simp)⟩
    change (findings.texts.insert slot text)[index]? = _
    simp only [Std.TreeMap.getElem?_insert, Std.compare_eq_iff_eq]
    rw [h.texts, Pool.utf8, Pool.utf8, Pool.get?_insert]
    split <;> rfl
  | classRef name =>
    refine ⟨htexts (by simp), fun other => ?_, hdescriptors (by simp)⟩
    change other ∈ findings.classNames.insert name ↔ _
    rw [Std.TreeSet.mem_insert, Std.compare_eq_iff_eq, h.classNames, holds_insert hfree,
      Constant.classRef.injEq, eq_comm]
  | nameAndType pair =>
    cases searchDescriptors with
    | true =>
      refine ⟨htexts (by simp), hclassNames (by simp), fun descriptor => ?_⟩
      change descriptor ∈ findings.descriptors.insert pair.descriptor ↔ _
      rw [Std.TreeSet.mem_insert, Std.compare_eq_iff_eq, h.descriptors]
      simp only [holds_insert hfree, true_and, exists_or]
      refine or_congr_left ⟨?_, ?_⟩
      · rintro rfl
        exact ⟨pair.name, rfl⟩
      · rintro ⟨name, hpair⟩
        rw [← Constant.nameAndType.inj hpair]
    | false =>
      refine ⟨htexts (by simp), hclassNames (by simp), fun descriptor => ?_⟩
      change descriptor ∈ findings.descriptors ↔ _
      rw [h.descriptors]
      simp only [Bool.false_eq_true, false_and]
  | _ => exact ⟨htexts (by simp), hclassNames (by simp), hdescriptors (by simp)⟩

end Tracks

/-! ### The two loops -/

/-- No constant was read, and nothing was noted. -/
structure Unscanned (outline : Outline) (findings : Findings) : Prop
    extends outline.OpenFrom 0 where
  nothing : findings = {}

/-- Both loops have come to an index: there are no constants from it on, and what was scanned is what
was read. The versions are known. -/
structure InStep (major : UInt16) (slot : Nat) (outline : Outline) (findings : Findings) : Prop
    extends outline.OpenFrom slot where
  sameMajor : outline.majorVersion = major
  tracks : Tracks (major < firstPlainMajor) outline.pool findings

namespace InStep

variable {major : UInt16} {outline : Outline} {findings : Findings}

/-- An index that gets no constant is passed over. -/
theorem pass {slot : Nat} (h : InStep major slot outline findings) :
    InStep major (slot + 1) outline findings where
  __ := h
  free index hindex := h.free index (Nat.le_of_succ_le hindex)

/-- A constant is put at its index and noted. -/
theorem add {slot : UInt16} (h : InStep major slot.toNat outline findings) (constant : Constant) :
    InStep major (slot.toNat + 1) { outline with pool := outline.pool.insert slot constant }
      (findings.add (major < firstPlainMajor) slot constant) where
  toOpenFrom := h.toOpenFrom.insert constant
  sameMajor := h.sameMajor
  tracks := h.tracks.add (h.free slot (Nat.le_refl _)) constant

end InStep

/-- The scan of the constants is the loop that takes note of each. -/
theorem scanConstants_eq_readFrom (searchDescriptors : Bool) (count index : Nat) :
    scanConstants searchDescriptors count index =
      readFrom (Findings.add searchDescriptors) count index := by
  fun_induction scanConstants searchDescriptors count index with
  | case1 index hindex hskip hkeep =>
    rw [readFrom, if_pos hindex]
    congr 1
    funext constant
    cases constant with
    | none => exact hskip
    | some constant =>
      dsimp only
      rw [hkeep constant]
  | case2 index hindex => rw [readFrom, if_neg hindex]

/-- Two loops over the constants go in lockstep when what they keep does. -/
theorem readFrom_lockstep {σ τ : Type} {R : Nat → σ → τ → Prop}
    {keep : UInt16 → Constant → σ → σ} {keep' : UInt16 → Constant → τ → τ} {count : Nat}
    (hcount : count ≤ 2 ^ 16)
    (hpass : ∀ index record other, R index record other → R (index + 1) record other)
    (hkeep : ∀ (slot : UInt16) constant record other, R slot.toNat record other →
      R (slot.toNat + 1) (keep slot constant record) (keep' slot constant other)) (index : Nat) :
    Lockstep (R index) (fun record other => ∃ last, R last record other)
      (readFrom keep count index) (readFrom keep' count index) := by
  fun_induction readFrom keep' count index with
  | case1 index hindex hskip hstep =>
    have hslot : (UInt16.ofNat index).toNat = index :=
      UInt16.toNat_ofNat_of_lt' (Nat.lt_of_lt_of_le hindex hcount)
    rw [readFrom, if_pos hindex]
    refine (Lockstep.of_parallel (Constant.read_parallel _)).bind fun constant => ?_
    cases constant with
    | none => exact hskip.imp (hpass index) fun _ _ h => h
    | some constant =>
      have hnote := hkeep (UInt16.ofNat index) constant
      rw [hslot] at hnote
      refine (Lockstep.note hnote).bind fun _ => ?_
      refine (hstep constant).imp (fun record other h => ?_) fun _ _ h => h
      -- The index in the shadow of a wide constant is passed over as well.
      cases constant.isWide with
      | false => exact h
      | true => exact hpass _ _ _ h
  | case2 index hindex =>
    rw [readFrom, if_neg hindex]
    exact (Lockstep.of_parallel (.pure ())).imp (fun _ _ h => h) fun _ _ h => ⟨index, h⟩

/-- Reading the opening of an image and scanning it go in lockstep. -/
theorem opening_lockstep :
    Lockstep Unscanned
      (fun outline findings =>
        Tracks (outline.majorVersion < firstPlainMajor) outline.pool findings)
      Outline.readOpening scan := by
  refine (Lockstep.of_parallel readMagic_parallel).bind fun _ => ?_
  refine Lockstep.note_left (S := Unscanned) (fun _ _ h => { h with }) ?_
  refine (Lockstep.of_parallel u2_parallel).bind fun minor => ?_
  refine Lockstep.note_left (S := Unscanned) (fun _ _ h => { h with }) ?_
  refine (Lockstep.of_parallel u2_parallel).bind fun major => ?_
  have hstart : ∀ outline findings, Unscanned outline findings →
      InStep major 1 { outline with majorVersion := major } findings := by
    rintro outline _ ⟨hopen, rfl⟩
    exact {
      accessFlags := hopen.accessFlags
      thisClass := hopen.thisClass
      superClass := hopen.superClass
      free := fun index _ => hopen.free index (Nat.zero_le _)
      sameMajor := rfl
      tracks := Tracks.of_free fun index => hopen.free index (Nat.zero_le _) }
  refine Lockstep.note_left hstart ?_
  refine (Lockstep.of_parallel u2_parallel).bind fun count => ?_
  rw [readConstants_eq_readFrom_one, scanConstants_eq_readFrom]
  refine (readFrom_lockstep (R := InStep major) (Nat.le_of_lt count.toNat_lt)
    (fun _ _ _ h => h.pass) (fun _ constant _ _ h => h.add constant) 1).imp (fun _ _ h => h) ?_
  rintro outline findings ⟨_, h⟩
  rw [h.sameMajor]
  exact h.tracks

/-! ### What an outline shows -/

/-- The distinct indices of a list, in ascending order. -/
def ascending (indices : List UInt16) : List UInt16 := indices.dedup.mergeSort (· ≤ ·)

theorem mem_ascending {indices : List UInt16} {index : UInt16} :
    index ∈ ascending indices ↔ index ∈ indices := by
  rw [ascending, List.mem_mergeSort, List.mem_dedup]

/-- A set is listed in ascending order. -/
theorem toList_eq_ascending {set : Std.TreeSet UInt16 compare} {indices : List UInt16}
    (h : ∀ index, index ∈ set ↔ index ∈ indices) : set.toList = ascending indices := by
  have hset : set.toList.Pairwise (· < ·) :=
    Std.TreeSet.ordered_toList.imp fun hlt => Std.compare_eq_lt.mp hlt
  have hlist : (ascending indices).Pairwise (· ≤ ·) := by
    refine (List.pairwise_mergeSort ?_ ?_ indices.dedup).imp of_decide_eq_true
    · intro a b c hab hbc
      exact decide_eq_true (UInt16.le_trans (of_decide_eq_true hab) (of_decide_eq_true hbc))
    · intro a b
      simpa using UInt16.le_total a b
  have hperm : set.toList.Perm (ascending indices) := by
    refine (List.perm_ext_iff_of_nodup ?_ ?_).mpr fun index => ?_
    · exact hset.imp fun hlt => UInt16.ne_of_lt hlt
    · exact (List.mergeSort_perm _ _).nodup_iff.mpr (List.nodup_dedup _)
    · rw [Std.TreeSet.mem_toList, h, mem_ascending]
  -- Two ascending lists of the same items are the same.
  refine hperm.eq_of_pairwise (fun a b _ _ hab hba => UInt16.le_antisymm hab hba) ?_ hlist
  exact hset.imp UInt16.le_of_lt

/-- The class that a text of a class constant is about. -/
def cleanText (text : String) : Option String := (cleanName text.toList).map String.ofList

/-- The classes that an outline refers to: for each index that class constants give as their name, the
class that the text there is about; before format 50 also, for each index that names and types give
as their descriptor, the classes in the text there. Indices are taken once each, in ascending
order. -/
def visibleReferences (outline : Outline) : List String :=
  (ascending (outline.classRefs.map Prod.snd)).filterMap
      (fun name => (outline.pool.utf8 name).bind cleanText) ++
    if outline.majorVersion < firstPlainMajor then
      (ascending (outline.nameAndTypes.map fun pair => pair.2.descriptor)).flatMap fun descriptor =>
        ((outline.pool.utf8 descriptor).toList.flatMap fun text =>
          (descriptorNames text.toList).map String.ofList)
    else []

theorem mem_classRefs {outline : Outline} {index name : UInt16} :
    (index, name) ∈ outline.classRefs ↔ outline.pool.get? index = some (.classRef name) := by
  rw [Outline.classRefs, List.mem_filterMap]
  constructor
  · rintro ⟨⟨other, constant⟩, hmem, hpick⟩
    cases constant with
    | classRef name =>
      obtain ⟨rfl, rfl⟩ := Prod.mk.inj (Option.some.inj hpick)
      exact Pool.mem_toList.mp hmem
    | _ => cases hpick
  · intro hget
    exact ⟨(index, .classRef name), Pool.mem_toList.mpr hget, rfl⟩

theorem mem_nameAndTypes {outline : Outline} {index : UInt16} {pair : NameAndType} :
    (index, pair) ∈ outline.nameAndTypes ↔ outline.pool.get? index = some (.nameAndType pair) := by
  rw [Outline.nameAndTypes, List.mem_filterMap]
  constructor
  · rintro ⟨⟨other, constant⟩, hmem, hpick⟩
    cases constant with
    | nameAndType pair =>
      obtain ⟨rfl, rfl⟩ := Prod.mk.inj (Option.some.inj hpick)
      exact Pool.mem_toList.mp hmem
    | _ => cases hpick
  · intro hget
    exact ⟨(index, .nameAndType pair), Pool.mem_toList.mpr hget, rfl⟩

section Listing

variable {outline : Outline} {findings : Findings}

theorem classNames_toList
    (h : Tracks (outline.majorVersion < firstPlainMajor) outline.pool findings) :
    findings.classNames.toList = ascending (outline.classRefs.map Prod.snd) := by
  refine toList_eq_ascending fun name => ?_
  rw [h.classNames, List.mem_map]
  constructor
  · rintro ⟨index, hget⟩
    exact ⟨(index, name), mem_classRefs.mpr hget, rfl⟩
  · rintro ⟨⟨index, _⟩, hmem, rfl⟩
    exact ⟨index, mem_classRefs.mp hmem⟩

theorem descriptors_toList
    (h : Tracks (outline.majorVersion < firstPlainMajor) outline.pool findings) :
    findings.descriptors.toList =
      if outline.majorVersion < firstPlainMajor then
        ascending (outline.nameAndTypes.map fun pair => pair.2.descriptor)
      else [] := by
  split
  · rename_i hmajor
    refine toList_eq_ascending fun descriptor => ?_
    rw [h.descriptors, decide_eq_true hmajor, List.mem_map]
    constructor
    · rintro ⟨-, name, index, hget⟩
      exact ⟨(index, ⟨name, descriptor⟩), mem_nameAndTypes.mpr hget, rfl⟩
    · rintro ⟨⟨index, ⟨name, _⟩⟩, hmem, rfl⟩
      exact ⟨rfl, name, index, mem_nameAndTypes.mp hmem⟩
  · rename_i hmajor
    refine List.eq_nil_iff_forall_not_mem.mpr fun descriptor hmem => ?_
    obtain ⟨hsearch, -⟩ := (h.descriptors descriptor).mp (Std.TreeSet.mem_toList.mp hmem)
    exact hmajor (of_decide_eq_true hsearch)

/-- What a scan makes of its notes can be seen in an outline with the same constants. -/
theorem names_eq_visibleReferences
    (h : Tracks (outline.majorVersion < firstPlainMajor) outline.pool findings) :
    findings.names = visibleReferences outline := by
  rw [Findings.names, classNames_toList h, descriptors_toList h, visibleReferences]
  refine congrArg₂ _ (List.filterMap_congr fun name _ => ?_) ?_
  · rw [h.texts]
    cases outline.pool.utf8 name with
    | none => rfl
    | some text =>
      change (cleanName text.toList).bind (fun name => some (String.ofList name)) = cleanText text
      rw [cleanText, Option.map_eq_bind]
      rfl
  · split
    · refine List.flatMap_congr fun descriptor _ => ?_
      rw [h.texts]
      cases outline.pool.utf8 descriptor with
      | none => rfl
      | some text => rw [Option.toList_some, List.flatMap_singleton]
    · rfl

end Listing

/-- From format 50 on, only the texts of class constants count. -/
theorem mem_visibleReferences_of_plain {outline : Outline} {name : String}
    (hmajor : ¬ outline.majorVersion < firstPlainMajor) :
    name ∈ visibleReferences outline ↔
      ∃ text ∈ outline.referencedNames, cleanText text = some name := by
  rw [visibleReferences, if_neg hmajor, List.append_nil, List.mem_filterMap]
  simp only [Outline.referencedNames, NameSet.mem_ofList, List.mem_filterMap, mem_ascending]
  constructor
  · rintro ⟨index, hindex, hname⟩
    obtain ⟨text, htext, hclean⟩ := Option.bind_eq_some_iff.mp hname
    obtain ⟨pair, hpair, rfl⟩ := List.mem_map.mp hindex
    exact ⟨text, ⟨pair, hpair, htext⟩, hclean⟩
  · rintro ⟨text, ⟨pair, hpair, htext⟩, hclean⟩
    exact ⟨pair.2, List.mem_map_of_mem hpair, Option.bind_eq_some_iff.mpr ⟨text, htext, hclean⟩⟩

/-! ### Whole images -/

/-- An image can be read up to the end of its constants. -/
def Opens (image : List UInt8) : Prop :=
  ∃ s, Outline.readOpening (Cursor.front image, {}) = .ok () s

/-- The outline of an image that could be opened has the versions and the constants of its opening. -/
theorem parse_of_opens {image : List UInt8} {cursor : Cursor} {opening : Outline}
    (h : Outline.readOpening (Cursor.front image, {}) = .ok () (cursor, opening)) :
    opening.Continues (parse image).outline := by
  have hheadless : opening.Headless :=
    Outline.readOpening_steady.leaves Outline.unread_empty h
  have hgrows := Outline.readBody_steady.grows cursor opening hheadless
  have hread : Outline.read (Cursor.front image, {}) = Outline.readBody (cursor, opening) := by
    rw [Outline.read, bind_run, h]
  rw [parse_outline, hread]
  exact hgrows

/-- An image that cannot be opened is not parsed any further. -/
theorem parse_of_not_opens {image : List UInt8} {cursor : Cursor} {opening : Outline}
    {fault : Fault}
    (h : Outline.readOpening (Cursor.front image, {}) = .error fault (cursor, opening)) :
    parse image = ⟨opening, some fault⟩ := by
  have hread : Outline.read (Cursor.front image, {}) = .error fault (cursor, opening) := by
    rw [Outline.read, bind_run, h]
  rw [parse, hread]

/-- An image that is parsed to its end can be scanned. -/
theorem exists_references_of_complete {image : List UInt8} (h : (parse image).fault = none) :
    ∃ names, references image = .ok names := by
  have hruns := opening_lockstep (Cursor.front image) {} {} ⟨Outline.openFrom_empty 0, rfl⟩
  generalize hopening : Outline.readOpening (Cursor.front image, {}) = opening at hruns
  generalize hscan : scan (Cursor.front image, {}) = scanned at hruns
  cases hruns with
  | ok _ _ _ findings _ => exact ⟨findings.names, by rw [references, hscan]⟩
  | error =>
    rw [parse_of_not_opens hopening] at h
    cases h

/-- A scan and a parse agree on every image. The scan fails exactly when the parse stops before the
end of the constants, and with the same fault; what comes after the constants cannot make it fail.
When it succeeds, its names are those that the outline shows, so from format 50 on the names are what
the texts of class constants are about. -/
theorem references_agree (image : List UInt8) :
    (∀ fault, references image = .error fault ↔
      (parse image).fault = some fault ∧ ¬ Opens image) ∧
    ∀ names, references image = .ok names →
      names = visibleReferences (parse image).outline ∧
      (¬ (parse image).outline.majorVersion < firstPlainMajor → ∀ name, name ∈ names ↔
        ∃ text ∈ (parse image).outline.referencedNames, cleanText text = some name) := by
  have hruns := opening_lockstep (Cursor.front image) {} {} ⟨Outline.openFrom_empty 0, rfl⟩
  generalize hopening : Outline.readOpening (Cursor.front image, {}) = opening at hruns
  generalize hscan : scan (Cursor.front image, {}) = scanned at hruns
  cases hruns with
  | ok _ next opened findings htracks =>
    have hopens : Opens image := ⟨_, hopening⟩
    have hcontinues := parse_of_opens hopening
    have hreferences : references image = .ok findings.names := by rw [references, hscan]
    rw [← hcontinues.sameMajor, ← hcontinues.samePool] at htracks
    constructor
    · intro fault
      constructor
      · intro hfault
        rw [hreferences] at hfault
        cases hfault
      · rintro ⟨-, hnot⟩
        exact absurd hopens hnot
    · intro names hnames
      rw [hreferences] at hnames
      obtain rfl := Except.ok.inj hnames
      rw [names_eq_visibleReferences htracks]
      exact ⟨rfl, fun hmajor name => mem_visibleReferences_of_plain hmajor⟩
  | error stopped next opened findings =>
    have hopens : ¬ Opens image := by
      rintro ⟨s, hread⟩
      rw [hopening] at hread
      cases hread
    have hreferences : references image = .error stopped := by rw [references, hscan]
    constructor
    · intro fault
      rw [hreferences, parse_of_not_opens hopening, Except.error.injEq, Option.some.injEq]
      exact ⟨fun hfault => ⟨hfault, hopens⟩, And.left⟩
    · intro names hnames
      rw [hreferences] at hnames
      cases hnames

end JarAudit.Reference
