import Mathlib.Logic.Function.Basic
import JarAudit.Proofs.ClassFile.Loop

/-!
# A pool over its whole history

However constants are put into a pool and read into it, the pool answers as a finite map would. The
map is a function on indices, and what an operation makes of it is said without the slots of a pool
(`Operation.Effect`): putting a constant changes one index, and reading changes the indices at which
the constants that were read start (`written`). `Run` chains the effects of operations.

One operation on a pool has the effect that it should have (`Operation.effect_iff`), so a whole run
has (`run_iff`); and every question to a pool is answered by the map (`Pool.answersAs_get?`).
-/

namespace JarAudit.ClassFile

open Reader

/-! ### Operations -/

/-- An operation that changes a pool. -/
inductive Operation where
  /-- Puts a constant at an index. -/
  | insert (index : UInt16) (constant : Constant)
  /-- Reads the constants of a pool that declares `count`, from a place in an image. -/
  | read (count : UInt16) (cursor : Cursor)

namespace Operation

/-- Does an operation and answers the fault that it met. -/
def perform : Operation → Pool → Option Fault × Pool
  | insert index constant, pool => (none, pool.insert index constant)
  | read count cursor, pool =>
    match Pool.read count (cursor, pool) with
    | .ok _ s => (none, s.2)
    | .error fault s => (some fault, s.2)

end Operation

/-- Does operations one after the other and answers the fault of each. -/
def performAll : List Operation → Pool → List (Option Fault) × Pool
  | [], pool => ([], pool)
  | operation :: rest, pool =>
    let first := operation.perform pool
    let others := performAll rest first.2
    (first.1 :: others.1, others.2)

/-! ### Effects on a finite map -/

/-- A finite map after constants were written into it. Each stands at the index at which it starts,
unless it is a text that cannot be decoded; all other indices keep what they had. -/
def written (placed : List (Nat × Item)) (map : UInt16 → Option Constant) (index : UInt16) :
    Option Constant :=
  ((placed.find? fun p => p.1 = index.toNat).bind fun p => p.2.constant?).or (map index)

/-- What an operation makes of a finite map, and the fault that it meets. -/
inductive Operation.Effect :
    Operation → Option Fault → (before after : UInt16 → Option Constant) → Prop
  | insert (index : UInt16) (constant : Constant) (map : UInt16 → Option Constant) :
    Effect (.insert index constant) none map (Function.update map index (some constant))
  | read {count : UInt16} {cursor stop last : Cursor} {items : List Item} {fault : Option Fault}
    (h : ReadsItems count.toNat 1 cursor items stop fault last) (map : UInt16 → Option Constant) :
    Effect (.read count cursor) fault map (written (Item.placedFrom 1 items) map)

/-- What operations make of a finite map one after the other, and the faults that they meet. -/
inductive Run : (before : UInt16 → Option Constant) → List Operation → List (Option Fault) →
    (after : UInt16 → Option Constant) → Prop
  | nil (map : UInt16 → Option Constant) : Run map [] [] map
  | cons {before middle after : UInt16 → Option Constant} {operation : Operation}
    {rest : List Operation} {fault : Option Fault} {faults : List (Option Fault)}
    (hfirst : operation.Effect fault before middle) (hrest : Run middle rest faults after) :
    Run before (operation :: rest) (fault :: faults) after

/-- A pool answers every question as a finite map does. -/
structure Pool.AnswersAs (pool : Pool) (map : UInt16 → Option Constant) : Prop where
  get? : ∀ index, pool.get? index = map index
  utf8 : ∀ index text, pool.utf8 index = some text ↔ map index = some (.utf8 text)
  className : ∀ index text, pool.className index = some text ↔
    ∃ name, map index = some (.classRef name) ∧ map name = some (.utf8 text)
  nameAndType : ∀ index pair,
    pool.nameAndType index = some pair ↔ map index = some (.nameAndType pair)
  member : ∀ ref owner name descriptor, pool.member ref = some (owner, name, descriptor) ↔
    ∃ ownerName pair, map ref.classIndex = some (.classRef ownerName) ∧
      map ownerName = some (.utf8 owner) ∧ map ref.nameAndType = some (.nameAndType pair) ∧
      map pair.name = some (.utf8 name) ∧ map pair.descriptor = some (.utf8 descriptor)
  mem_toList : ∀ index constant, (index, constant) ∈ pool.toList ↔ map index = some constant
  ascending : pool.toList.Pairwise fun one other => one.1 < other.1
  size : pool.size = pool.toList.length
  isEmpty : pool.isEmpty = true ↔ ∀ index, map index = none

theorem Pool.answersAs_get? (pool : Pool) : pool.AnswersAs pool.get? where
  get? _ := rfl
  utf8 _ _ := utf8_eq_some
  className _ _ := className_eq_some
  nameAndType _ _ := nameAndType_eq_some
  member ref owner name descriptor := by
    simp only [member_eq_some, className_eq_some, nameAndType_eq_some, utf8_eq_some]
    constructor
    · rintro ⟨pair, ⟨ownerName, howner, htext⟩, hpair, hname, hdescriptor⟩
      exact ⟨ownerName, pair, howner, htext, hpair, hname, hdescriptor⟩
    · rintro ⟨ownerName, pair, howner, htext, hpair, hname, hdescriptor⟩
      exact ⟨pair, ⟨ownerName, howner, htext⟩, hpair, hname, hdescriptor⟩
  mem_toList _ _ := mem_toList
  ascending := pool.toList_ascending
  size := pool.length_toList.symm
  isEmpty := isEmpty_iff

/-! ### One operation -/

theorem get?_insert_eq_update (pool : Pool) (index : UInt16) (constant : Constant) :
    (pool.insert index constant).get? = Function.update pool.get? index (some constant) := by
  funext other
  rw [Pool.get?_insert, Function.update_apply]
  simp only [eq_comm]

/-- Constants that start behind an index change nothing there. -/
theorem written_of_lt {start : Nat} {items : List Item} {index : UInt16}
    (h : index.toNat < start) (map : UInt16 → Option Constant) :
    written (Item.placedFrom start items) map index = map index := by
  have hnone : (Item.placedFrom start items).find? (fun p => p.1 = index.toNat) = none := by
    refine List.find?_eq_none.mpr fun p hp => ?_
    have := Item.le_of_mem_placedFrom hp
    rw [decide_eq_true_eq]
    omega
  rw [written, hnone, Option.bind_none, Option.none_or]

/-- Constants that were put into a pool one by one are written into its map. -/
theorem get?_keepPlaced_eq_written {start : Nat} {items : List Item} (pool : Pool)
    (hfits : ∀ p ∈ Item.placedFrom start items, p.1 < 2 ^ 16) :
    (keepPlaced (fun index constant pool => pool.insert index constant)
      (Item.placedFrom start items) pool).get? =
      written (Item.placedFrom start items) pool.get? := by
  induction items generalizing start pool with
  | nil => rfl
  | cons item rest ih =>
    have hstart : (UInt16.ofNat start).toNat = start :=
      UInt16.toNat_ofNat_of_lt' (hfits (start, item) List.mem_cons_self)
    have hrest := fun pool => ih pool fun p hp => hfits p (List.mem_cons_of_mem _ hp)
    have hwidth := item.width_pos
    rw [Item.placedFrom, keepPlaced_cons, hrest]
    funext index
    by_cases hindex : start = index.toNat
    · -- The first item decides: the others start behind it.
      have hlt : index.toNat < start + item.width := by omega
      have hofNat : UInt16.ofNat start = index := by rw [hindex, UInt16.ofNat_toNat]
      rw [written_of_lt hlt, written, List.find?_cons_of_pos (by simpa using hindex),
        Option.bind_some]
      cases item.constant? with
      | none => rfl
      | some constant => rw [hofNat, Pool.get?_insert, if_pos rfl, Option.some_or]
    · have hne : UInt16.ofNat start ≠ index := fun h => hindex (h ▸ hstart.symm)
      rw [written, written, List.find?_cons_of_neg (by simpa using hindex)]
      cases item.constant? with
      | none => rfl
      | some constant => rw [Pool.get?_insert, if_neg hne]

/-- Reading constants into a pool meets the fault of the reading and puts the items that were read
into the pool. -/
theorem perform_read {count : UInt16} {cursor stop last : Cursor} {items : List Item}
    {fault : Option Fault} (h : ReadsItems count.toNat 1 cursor items stop fault last)
    (pool : Pool) :
    (Operation.read count cursor).perform pool =
      (fault, keepPlaced (fun index constant pool => pool.insert index constant)
        (Item.placedFrom 1 items) pool) := by
  rw [Operation.perform, Pool.read, readConstants_eq_readFrom_one, h.run_eq]
  cases fault <;> rfl

/-- An operation has the effect that it should have, and no other. -/
theorem Operation.effect_iff {operation : Operation} {pool : Pool} {fault : Option Fault}
    {map : UInt16 → Option Constant} :
    operation.Effect fault pool.get? map ↔
      fault = (operation.perform pool).1 ∧ map = (operation.perform pool).2.get? := by
  cases operation with
  | insert index constant =>
    have hmap := get?_insert_eq_update pool index constant
    constructor
    · rintro ⟨⟩
      exact ⟨rfl, hmap.symm⟩
    · rintro ⟨rfl, rfl⟩
      have := Effect.insert index constant pool.get?
      rwa [← hmap] at this
  | read count cursor =>
    have hmap : ∀ {items stop fault last}, ReadsItems count.toNat 1 cursor items stop fault last →
        ((read count cursor).perform pool).2.get? =
          written (Item.placedFrom 1 items) pool.get? := by
      intro items stop fault last h
      rw [perform_read h]
      exact get?_keepPlaced_eq_written pool fun p hp =>
        Nat.lt_trans (h.below p hp) count.toNat_lt
    constructor
    · intro heffect
      cases heffect with
      | read h => exact ⟨by rw [perform_read h], (hmap h).symm⟩
    · rintro ⟨rfl, rfl⟩
      obtain ⟨items, stop, fault, last, h⟩ := exists_readsItems count.toNat 1 cursor
      rw [hmap h, perform_read h]
      exact .read h pool.get?

/-! ### Whole histories -/

/-- A run of operations has the effects that it should have, and no others. -/
theorem run_iff {operations : List Operation} {pool : Pool} {faults : List (Option Fault)}
    {map : UInt16 → Option Constant} :
    Run pool.get? operations faults map ↔
      faults = (performAll operations pool).1 ∧ map = (performAll operations pool).2.get? := by
  induction operations generalizing pool faults map with
  | nil =>
    constructor
    · rintro ⟨⟩
      exact ⟨rfl, rfl⟩
    · rintro ⟨rfl, rfl⟩
      exact .nil _
  | cons operation rest ih =>
    constructor
    · intro h
      cases h with
      | cons hfirst hrest =>
        obtain ⟨rfl, rfl⟩ := Operation.effect_iff.mp hfirst
        obtain ⟨rfl, rfl⟩ := ih.mp hrest
        exact ⟨rfl, rfl⟩
    · rintro ⟨rfl, rfl⟩
      exact .cons (Operation.effect_iff.mpr ⟨rfl, rfl⟩) (ih.mpr ⟨rfl, rfl⟩)

/-! ### Unknown tags -/

/-- A step fails only where the bytes end. -/
def Truncates {σ α : Type} (m : Reader σ α) : Prop :=
  ∀ s fault s', m s = .error fault s' → ∃ offset needed available,
    fault = .truncated offset needed available

namespace Truncates

variable {σ α β : Type} {m : Reader σ α} {f : α → Reader σ β}

theorem pure (a : α) : Truncates (pure a : Reader σ α) := nofun

theorem bind (hm : Truncates m) (hf : ∀ a, Truncates (f a)) : Truncates (m >>= f) := by
  intro s fault s' h
  rw [bind_run] at h
  cases hrun : m s with
  | ok a t =>
    rw [hrun] at h
    exact hf a t fault s' h
  | error stopped t =>
    rw [hrun] at h
    obtain ⟨rfl, -⟩ := EStateM.Result.error.inj h
    exact hm s stopped t hrun

theorem bytes (count : Nat) : Truncates (bytes count : Reader σ (List UInt8)) := by
  intro s fault s' h
  rw [Reader.bytes] at h
  split at h
  · cases h
  · exact ⟨_, _, _, (EStateM.Result.error.inj h).1.symm⟩

/-- What a step answers may be changed on the way out. -/
theorem bind_pure (hm : Truncates m) (g : α → β) : Truncates (m >>= fun a => Pure.pure (g a)) :=
  hm.bind fun a => pure (g a)

theorem u1 : Truncates (u1 : Reader σ UInt8) := (bytes 1).bind_pure _

theorem u2 : Truncates (u2 : Reader σ UInt16) := (bytes 2).bind_pure _

theorem u4 : Truncates (u4 : Reader σ UInt32) := (bytes 4).bind_pure _

theorem u8 : Truncates (u8 : Reader σ UInt64) := u4.bind fun _ => u4.bind_pure _

theorem utf8 : Truncates (utf8 : Reader σ (Option String)) :=
  u2.bind fun length => (bytes length.toNat).bind_pure _

theorem pair (g : UInt16 → UInt16 → α) :
    Truncates (do return g (← Reader.u2) (← Reader.u2) : Reader σ α) :=
  u2.bind fun _ => u2.bind_pure _

/-- A step that fails only where the bytes end reports no tag. -/
theorem ne_unknownTag (hm : Truncates m) {s s' : Cursor × σ} {tag : UInt8} {index : UInt16}
    {offset : Nat} : m s ≠ .error (.unknownTag tag index offset) s' := by
  intro h
  obtain ⟨_, _, _, hfault⟩ := hm s _ s' h
  cases hfault

end Truncates

/-- A tag that no constant has is reported with the index of the constant and the offset of the
tag. -/
theorem Constant.read_unknownTag {σ : Type} {cursor : Cursor} {record : σ}
    {index reported : UInt16} {tag : UInt8} {offset : Nat} {s : Cursor × σ}
    (h : read index (cursor, record) = .error (.unknownTag tag reported offset) s) :
    reported = index ∧ offset = cursor.position ∧ ∃ rest, cursor.rest = tag :: rest := by
  rw [read, bind_run, position] at h
  dsimp only at h
  rw [bind_run] at h
  cases htag : u1 (cursor, record) with
  | error fault t =>
    rw [htag] at h
    obtain ⟨rfl, -⟩ := EStateM.Result.error.inj h
    exact absurd htag Truncates.u1.ne_unknownTag
  | ok found t =>
    obtain ⟨next, kept⟩ := t
    obtain ⟨hpasses, rfl⟩ := u1_eq_ok.mp htag
    rw [htag] at h
    dsimp only at h
    split at h
    case h_1 => exact absurd h (Truncates.utf8.bind_pure _).ne_unknownTag
    case h_2 => exact absurd h ((Truncates.u4.bind_pure _).bind_pure _).ne_unknownTag
    case h_3 => exact absurd h (Truncates.u4.bind_pure _).ne_unknownTag
    case h_4 | h_5 => exact absurd h (Truncates.u8.bind_pure _).ne_unknownTag
    case h_8 | h_9 | h_10 => exact absurd h ((Truncates.pair _).bind_pure _).ne_unknownTag
    case h_11 | h_14 | h_15 => exact absurd h (Truncates.pair _).ne_unknownTag
    case h_12 => exact absurd h (Truncates.u1.bind fun _ => Truncates.u2.bind_pure _).ne_unknownTag
    case h_18 =>
      obtain ⟨hfault, -⟩ := EStateM.Result.error.inj h
      obtain ⟨rfl, rfl, rfl⟩ := Fault.unknownTag.inj hfault
      exact ⟨rfl, rfl, next.rest, hpasses.1⟩
    all_goals exact absurd h (Truncates.u2.bind_pure _).ne_unknownTag

/-- A pool answers as a finite map does over any history of operations. There is exactly one run of
the operations on finite maps, from the map without constants; the pool meets the faults of this run
and answers every question as its last map does. Where a reading ends at an unknown tag, the fault
holds the index of the constant that could not be read and the offset of its tag. -/
theorem history_refines (operations : List Operation) :
    (∃ faults map,
      (∀ faults' map', Run (fun _ => none) operations faults' map' ↔
        faults' = faults ∧ map' = map) ∧
      (performAll operations ∅).1 = faults ∧ (performAll operations ∅).2.AnswersAs map) ∧
    ∀ (count : UInt16) (cursor stop last : Cursor) (items : List Item) (tag : UInt8)
      (index : UInt16) (offset : Nat),
      ReadsItems count.toNat 1 cursor items stop (some (.unknownTag tag index offset)) last →
      index.toNat = Item.behind 1 items ∧ offset = stop.position ∧
        ∃ rest, stop.rest = tag :: rest := by
  refine ⟨⟨_, _, fun faults map => ?_, rfl, Pool.answersAs_get? _⟩, ?_⟩
  · rw [← run_iff]
    rfl
  · intro count cursor stop last items tag index offset h
    obtain ⟨hbehind, hread⟩ := h.ends
    obtain ⟨rfl, hoffset, hrest⟩ := Constant.read_unknownTag hread
    exact ⟨UInt16.toNat_ofNat_of_lt' (Nat.lt_trans hbehind count.toNat_lt), hoffset, hrest⟩

-- A reading writes nothing in the shadow of a wide constant.
example : let pool := (performAll [.insert 2 (.integer 7),
      .read 4 ⟨0, [5, 0, 0, 0, 0, 0, 0, 0, 1, 3, 0, 0, 0, 9]⟩] ∅).2
    [pool.get? 1, pool.get? 2, pool.get? 3] =
      [some (.long 1), some (.integer 7), some (.integer 9)] := by
  decide +kernel

end JarAudit.ClassFile
