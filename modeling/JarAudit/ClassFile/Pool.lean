import JarAudit.ClassFile.Constant

/-!
# The constant pool

A pool holds its constants in a row of slots that grows when an index beyond its end is filled. Seen
from outside it is a finite map from indices to constants: `get?_insert` says what an insertion
changes, `mem_toList` what the listing holds. Lookups that follow an index through the pool (a class
through its name, a member through its class, name and type) answer nothing as soon as one step is
absent or of another kind.
-/

namespace JarAudit.ClassFile

/-- Constants by index. A slot is empty where nothing was put. -/
structure Pool where
  slots : Array (Option Constant) := #[]
  /-- There is no slot without an index. -/
  size_le : slots.size ≤ UInt16.size := by decide

namespace Pool

/-- The pool without constants. -/
def empty : Pool := {}

instance : EmptyCollection Pool := ⟨empty⟩

instance : Inhabited Pool := ⟨∅⟩

/-- Puts a constant at an index, in place of what was there. The row of slots grows until it has the
index. -/
def insert (pool : Pool) (index : UInt16) (constant : Constant) : Pool where
  slots :=
    (pool.slots.rightpad (index.toNat + 1) none).setIfInBounds index.toNat (some constant)
  size_le := by
    rw [Array.size_setIfInBounds, Array.size_rightpad]
    exact Nat.max_le.mpr ⟨index.toNat_lt, pool.size_le⟩

/-- The constant at an index. -/
def get? (pool : Pool) (index : UInt16) : Option Constant := pool.slots[index.toNat]?.join

/-- There is nothing in a pool without constants. -/
@[simp] theorem get?_empty (index : UInt16) : (∅ : Pool).get? index = none := rfl

/-- Slots that are added at the end are empty. -/
theorem join_getElem?_rightpad (slots : Array (Option Constant)) (count index : Nat) :
    (slots.rightpad count none)[index]?.join = slots[index]?.join := by
  rw [Array.rightpad, Array.getElem?_append]
  split
  · rfl
  · rename_i hindex
    rw [Array.getElem?_eq_none (Nat.le_of_not_lt hindex), Array.getElem?_replicate]
    split <;> rfl

/-- What was put at an index is found there; all other indices are as they were. -/
@[grind =] theorem get?_insert (pool : Pool) (index other : UInt16) (constant : Constant) :
    (pool.insert index constant).get? other =
      if index = other then some constant else pool.get? other := by
  have hsize : index.toNat < (pool.slots.rightpad (index.toNat + 1) none).size := by
    rw [Array.size_rightpad]
    exact Nat.lt_of_lt_of_le index.toNat.lt_succ_self (Nat.le_max_left _ _)
  rw [get?, insert]
  split
  · rename_i hindex
    rw [← hindex, Array.getElem?_setIfInBounds_self_of_lt hsize]
    rfl
  · rename_i hindex
    have hne : index.toNat ≠ other.toNat := fun h => hindex (UInt16.toNat_inj.mp h)
    rw [Array.getElem?_setIfInBounds_ne hne, join_getElem?_rightpad, get?]

/-- How many constants there are. -/
def size (pool : Pool) : Nat := pool.slots.countP Option.isSome

/-- No constant is there. -/
def isEmpty (pool : Pool) : Bool := pool.size == 0

/-- The constants with their indices, in ascending order. -/
def toList (pool : Pool) : List (UInt16 × Constant) :=
  pool.slots.toList.zipIdx.filterMap fun (slot, index) =>
    slot.map fun constant => (UInt16.ofNat index, constant)

/-- The places of the slots are told apart by their indices. -/
theorem toNat_ofNat_place {pool : Pool} {place : Nat} (h : place < pool.slots.size) :
    (UInt16.ofNat place).toNat = place :=
  UInt16.toNat_ofNat_of_lt' (Nat.lt_of_lt_of_le h pool.size_le)

theorem mem_toList {pool : Pool} {index : UInt16} {constant : Constant} :
    (index, constant) ∈ pool.toList ↔ pool.get? index = some constant := by
  rw [toList, List.mem_filterMap, get?, Option.join_eq_some_iff]
  constructor
  · rintro ⟨⟨slot, place⟩, hmem, hslot⟩
    obtain ⟨_, rfl, hpair⟩ := Option.map_eq_some_iff.mp hslot
    obtain ⟨rfl, rfl⟩ := Prod.mk.inj hpair
    rw [List.mk_mem_zipIdx_iff_getElem?, Array.getElem?_toList] at hmem
    rwa [toNat_ofNat_place (Array.getElem?_eq_some_iff.mp hmem).1]
  · intro hget
    refine ⟨(some constant, index.toNat), ?_, ?_⟩
    · rwa [List.mk_mem_zipIdx_iff_getElem?, Array.getElem?_toList]
    · change some (UInt16.ofNat index.toNat, constant) = _
      rw [UInt16.ofNat_toNat]

theorem toList_ascending (pool : Pool) : pool.toList.Pairwise fun one other => one.1 < other.1 := by
  have hplaces : pool.slots.toList.zipIdx.Pairwise fun one other => one.2 < other.2 := by
    rw [← List.pairwise_map (f := Prod.snd), List.zipIdx_map_snd]
    exact List.pairwise_lt_range'
  have hsize : ∀ p ∈ pool.slots.toList.zipIdx, p.2 < pool.slots.size := by
    intro p hp
    simpa using List.snd_lt_of_mem_zipIdx hp
  refine List.pairwise_filterMap.mpr (hplaces.imp_of_mem ?_)
  intro one other hone hother hlt pair hpair pair' hpair'
  obtain ⟨constant, -, rfl⟩ := Option.map_eq_some_iff.mp hpair
  obtain ⟨constant', -, rfl⟩ := Option.map_eq_some_iff.mp hpair'
  rw [UInt16.lt_iff_toNat_lt, toNat_ofNat_place (hsize one hone),
    toNat_ofNat_place (hsize other hother)]
  exact hlt

theorem length_toList (pool : Pool) : pool.toList.length = pool.size := by
  have hslots : pool.slots.toList = pool.slots.toList.zipIdx.map Prod.fst :=
    (List.zipIdx_map_fst 0 _).symm
  rw [toList, List.length_filterMap_eq_countP, size, ← Array.countP_toList, hslots,
    List.countP_map, ← hslots]
  refine List.countP_congr fun p _ => ?_
  rw [Option.isSome_map]
  rfl

theorem isEmpty_iff {pool : Pool} : pool.isEmpty = true ↔ ∀ index, pool.get? index = none := by
  rw [isEmpty, ← length_toList, beq_iff_eq, List.length_eq_zero_iff,
    List.eq_nil_iff_forall_not_mem]
  constructor
  · intro h index
    refine Option.eq_none_iff_forall_ne_some.mpr fun constant hconstant => ?_
    exact h _ (mem_toList.mpr hconstant)
  · rintro h ⟨index, constant⟩ hmem
    rw [mem_toList, h index] at hmem
    cases hmem

/-- What `pick` makes of the constants, in order of index. -/
def collect (pool : Pool) (pick : Constant → Option α) : List α :=
  pool.toList.filterMap fun (_, constant) => pick constant

/-- The text at an index. -/
def utf8 (pool : Pool) (index : UInt16) : Option String :=
  match pool.get? index with
  | some (.utf8 text) => some text
  | _ => none

theorem utf8_eq_some {pool : Pool} {index : UInt16} {text : String} :
    pool.utf8 index = some text ↔ pool.get? index = some (.utf8 text) := by
  rw [utf8]
  split <;> simp_all

/-- The name of the class at an index. -/
def className (pool : Pool) (index : UInt16) : Option String :=
  match pool.get? index with
  | some (.classRef name) => pool.utf8 name
  | _ => none

theorem className_eq_some {pool : Pool} {index : UInt16} {text : String} :
    pool.className index = some text ↔
      ∃ name, pool.get? index = some (.classRef name) ∧ pool.get? name = some (.utf8 text) := by
  rw [className]
  split <;> simp_all [utf8_eq_some]

/-- The name and type at an index. -/
def nameAndType (pool : Pool) (index : UInt16) : Option NameAndType :=
  match pool.get? index with
  | some (.nameAndType pair) => some pair
  | _ => none

theorem nameAndType_eq_some {pool : Pool} {index : UInt16} {pair : NameAndType} :
    pool.nameAndType index = some pair ↔ pool.get? index = some (.nameAndType pair) := by
  rw [nameAndType]
  split <;> simp_all

/-- The class, name and type of a member as texts. -/
def member (pool : Pool) (ref : MemberRef) : Option (String × String × String) := do
  let owner ← pool.className ref.classIndex
  let pair ← pool.nameAndType ref.nameAndType
  let name ← pool.utf8 pair.name
  let descriptor ← pool.utf8 pair.descriptor
  return (owner, name, descriptor)

theorem member_eq_some {pool : Pool} {ref : MemberRef} {owner name descriptor : String} :
    pool.member ref = some (owner, name, descriptor) ↔
      ∃ pair, pool.className ref.classIndex = some owner ∧
        pool.nameAndType ref.nameAndType = some pair ∧ pool.utf8 pair.name = some name ∧
        pool.utf8 pair.descriptor = some descriptor := by
  simp only [member, bind, pure, Option.bind_eq_some_iff, Option.some.injEq, Prod.mk.injEq]
  constructor
  · rintro ⟨_, howner, pair, hpair, _, hname, _, hdescriptor, rfl, rfl, rfl⟩
    exact ⟨pair, howner, hpair, hname, hdescriptor⟩
  · rintro ⟨pair, howner, hpair, hname, hdescriptor⟩
    exact ⟨_, howner, pair, hpair, _, hname, _, hdescriptor, rfl, rfl, rfl⟩

/-- Reads the constants of a pool that declares `count`: the indices run from 1 and stay below it.
What was read before a fault is kept. -/
def read (count : UInt16) : Reader Pool Unit :=
  readConstants (fun index constant pool => pool.insert index constant) (count.toNat - 1) 1 false

end Pool

end JarAudit.ClassFile
