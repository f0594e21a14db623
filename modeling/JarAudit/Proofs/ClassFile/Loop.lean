import JarAudit.Proofs.ClassFile.Parallel
import JarAudit.Proofs.ClassFile.RoundTrip

/-!
# The constants as one loop

The constants of an image are read slot by slot. The same reading is a loop over indices, `readFrom`,
in which a constant moves the index on by its width (`readConstants_eq_readFrom`). In this form a
reading can be cut behind any constant: over the written form of some items the loop runs on to the
index behind them (`readFrom_of_passes`), whatever record it keeps.

`ReadsItems` says which items the loop reads before it ends, and how it ends: at the declared count,
or at the first constant that cannot be read. Every reading has such items (`exists_readsItems`), and
they tell what it leaves in any record (`ReadsItems.run_eq`).
-/

namespace JarAudit.ClassFile

open Reader

variable {σ : Type} {cursor next stop : Cursor} {record : σ}

namespace Item

/-- The index behind the last of some constants, when the first one starts at `index`. -/
def behind (index : Nat) : List Item → Nat
  | [] => index
  | item :: rest => behind (index + item.width) rest

theorem le_behind (index : Nat) (items : List Item) : index ≤ behind index items := by
  induction items generalizing index with
  | nil => exact Nat.le_refl _
  | cons item rest ih => exact Nat.le_trans (Nat.le_add_right _ _) (ih _)

theorem behind_append (index : Nat) (front back : List Item) :
    behind index (front ++ back) = behind (behind index front) back := by
  induction front generalizing index with
  | nil => rfl
  | cons item rest ih => exact ih _

theorem placedFrom_append (index : Nat) (front back : List Item) :
    placedFrom index (front ++ back) =
      placedFrom index front ++ placedFrom (behind index front) back := by
  induction front generalizing index with
  | nil => rfl
  | cons item rest ih => exact congrArg ((index, item) :: ·) (ih _)

/-- Every constant starts before the index behind the last one. -/
theorem lt_behind_of_mem_placedFrom {index : Nat} {items : List Item} {p : Nat × Item}
    (h : p ∈ placedFrom index items) : p.1 < behind index items := by
  induction items generalizing index with
  | nil => cases h
  | cons item rest ih =>
    rcases List.mem_cons.mp h with rfl | hrest
    · exact Nat.lt_of_lt_of_le (Nat.lt_add_of_pos_right item.width_pos) (le_behind _ rest)
    · exact ih hrest

end Item

/-! ### The loop -/

/-- Reads constants as long as the index is below the count, and hands each one to `keep` with its
index. The index moves on by the width of what was read. -/
def readFrom (keep : UInt16 → Constant → σ → σ) (count index : Nat) : Reader σ Unit :=
  if index < count then do
    match ← Constant.read (UInt16.ofNat index) with
    | none => readFrom keep count (index + 1)
    | some constant =>
      note (keep (UInt16.ofNat index) constant)
      readFrom keep count (index + 1 + constant.isWide.toNat)
  else pure ()
termination_by count - index

theorem readFrom_of_le (keep : UInt16 → Constant → σ → σ) {count index : Nat}
    (h : count ≤ index) : readFrom keep count index = pure () := by
  rw [readFrom, if_neg (Nat.not_lt.mpr h)]

/-- Reading slot by slot and reading index by index is the same. One counts the slots that are left
and passes over a shadow in a round of its own; the other adds the width of a constant at once. -/
theorem readConstants_eq_readFrom {keep : UInt16 → Constant → σ → σ} {slots : Nat} {slot : UInt16}
    {shadow : Bool} (h : slot.toNat + slots < 2 ^ 16) :
    readConstants keep slots slot shadow =
      readFrom keep (slot.toNat + slots) (slot.toNat + shadow.toNat) := by
  induction slots generalizing slot shadow with
  | zero => rw [readFrom_of_le keep (by omega), readConstants]
  | succ slots ih =>
    have hnext := toNat_succ_slot h
    have hrest : ∀ shadow : Bool, readConstants keep slots (slot + 1) shadow =
        readFrom keep ((slot + 1).toNat + slots) ((slot + 1).toNat + shadow.toNat) :=
      fun _ => ih (by omega)
    rw [hnext, Nat.add_right_comm, Nat.add_assoc] at hrest
    cases shadow with
    | true =>
      rw [readConstants, hrest false]
      rfl
    | false =>
      have hbelow : slot.toNat < slot.toNat + (slots + 1) :=
        Nat.lt_add_of_pos_right slots.succ_pos
      rw [readConstants, readFrom, Bool.toNat_false, Nat.add_zero, if_pos hbelow,
        UInt16.ofNat_toNat]
      congr 1
      funext constant
      cases constant with
      | none => exact hrest false
      | some constant =>
        dsimp only
        rw [hrest constant.isWide]

/-! ### Runs of the loop -/

/-- Constants are kept one after the other. -/
theorem keepPlaced_cons (keep : UInt16 → Constant → σ → σ) (index : Nat) (item : Item)
    (placed : List (Nat × Item)) (record : σ) :
    keepPlaced keep ((index, item) :: placed) record =
      keepPlaced keep placed (match item.constant? with
        | some constant => keep (UInt16.ofNat index) constant record
        | none => record) := rfl

/-- Over the written form of an item the loop makes one round. -/
theorem readFrom_of_passes_item (keep : UInt16 → Constant → σ → σ) {count index : Nat} {item : Item}
    (hindex : index < count) (hpasses : cursor.Passes item.bytes next) :
    readFrom keep count index (cursor, record) =
      readFrom keep count (index + item.width) (next, keepPlaced keep [(index, item)] record) := by
  have hread : Constant.read (UInt16.ofNat index) (cursor, record) =
      .ok item.constant? (next, record) :=
    Constant.read_eq_ok.mpr ⟨item, rfl, hpasses, rfl⟩
  rw [readFrom, if_pos hindex, bind_run, hread]
  dsimp only
  cases hconstant : item.constant? with
  | none =>
    rw [Item.width_of_constant?_eq_none hconstant]
    simp only [keepPlaced, List.foldl_cons, List.foldl_nil, hconstant]
  | some constant =>
    rw [Item.width_of_constant?_eq_some hconstant, ← Nat.add_assoc]
    simp only [keepPlaced, List.foldl_cons, List.foldl_nil, hconstant]
    rfl

/-- Over the written form of items the loop runs on to the index behind them. -/
theorem readFrom_of_passes (keep : UInt16 → Constant → σ → σ) {count index : Nat}
    {items : List Item} (hbelow : ∀ p ∈ Item.placedFrom index items, p.1 < count)
    (hpasses : cursor.Passes (items.flatMap Item.bytes) next) :
    readFrom keep count index (cursor, record) =
      readFrom keep count (Item.behind index items)
        (next, keepPlaced keep (Item.placedFrom index items) record) := by
  induction items generalizing index cursor record with
  | nil =>
    obtain rfl := Cursor.passes_nil.mp hpasses
    rfl
  | cons item rest ih =>
    rw [List.flatMap_cons] at hpasses
    obtain ⟨middle, hitem, hrest⟩ := Cursor.passes_append.mp hpasses
    have hfirst : index < count := hbelow (index, item) List.mem_cons_self
    rw [readFrom_of_passes_item keep hfirst hitem,
      ih (fun p hp => hbelow p (List.mem_cons_of_mem _ hp)) hrest]
    rfl

/-- The loop ends where a constant cannot be read. -/
theorem readFrom_of_error (keep : UInt16 → Constant → σ → σ) {count index : Nat} {fault : Fault}
    {s s' : Cursor × σ} (hindex : index < count)
    (hread : Constant.read (UInt16.ofNat index) s = .error fault s') :
    readFrom keep count index s = .error fault s' := by
  rw [readFrom, if_pos hindex, bind_run, hread]

/-- Whether a constant can be read does not depend on the record, and a failure leaves it alone. -/
theorem Constant.read_error_congr {τ : Type} {index : UInt16} {fault : Fault} (other : τ)
    (h : read index (cursor, record) = .error fault (next, record)) :
    read index (cursor, other) = .error fault (next, other) := by
  rw [((read_parallel index).run_eq cursor record other).2, h]
  rfl

/-- Reading the slots of a pool that declares `count` is the loop from index 1 on; counts zero and one
leave no constants. -/
theorem readConstants_eq_readFrom_one (keep : UInt16 → Constant → σ → σ) (count : UInt16) :
    readConstants keep (count.toNat - 1) 1 false = readFrom keep count.toNat 1 := by
  rw [readConstants_eq_readFrom (Outline.slots_lt count)]
  change readFrom keep (1 + (count.toNat - 1)) 1 = _
  cases count.toNat with
  | zero => rw [readFrom_of_le keep (Nat.le_refl 1), readFrom_of_le keep (Nat.zero_le 1)]
  | succ count => rw [Nat.add_sub_cancel, Nat.add_comm]

/-! ### The items of a reading -/

/-- From `cursor` and `index` on, constants are read below `count`: these items up to `stop`, where
either the count is reached or the next constant cannot be read. The reading ends at `last`. -/
structure ReadsItems (count index : Nat) (cursor : Cursor) (items : List Item) (stop : Cursor)
    (fault : Option Fault) (last : Cursor) : Prop where
  below : ∀ p ∈ Item.placedFrom index items, p.1 < count
  passes : cursor.Passes (items.flatMap Item.bytes) stop
  ends : match fault with
    | none => count ≤ Item.behind index items ∧ last = stop
    | some fault => Item.behind index items < count ∧
      Constant.read (UInt16.ofNat (Item.behind index items)) (stop, ()) = .error fault (last, ())

/-- Every reading has its items. -/
theorem exists_readsItems (count index : Nat) (cursor : Cursor) :
    ∃ items stop fault last, ReadsItems count index cursor items stop fault last := by
  induction hleft : count - index using Nat.strongRecOn generalizing index cursor with
  | ind left ih =>
    by_cases hindex : index < count
    · cases hread : Constant.read (UInt16.ofNat index) (cursor, ()) with
      | ok constant s =>
        -- What was read is an item, and the rest is read from the index behind it.
        obtain ⟨item, -, hitem, -⟩ := Constant.read_eq_ok.mp hread
        have hwidth := item.width_pos
        obtain ⟨items, stop, fault, last, hbelow, hpasses, hends⟩ :=
          ih (count - (index + item.width)) (by omega) (index + item.width) s.1 rfl
        refine ⟨item :: items, stop, fault, last, ?_, ?_, hends⟩
        · intro p hp
          rcases List.mem_cons.mp hp with rfl | hp
          · exact hindex
          · exact hbelow p hp
        · rw [List.flatMap_cons]
          exact hitem.append hpasses
      | error fault s =>
        exact ⟨[], cursor, some fault, s.1, nofun, Cursor.passes_nil.mpr rfl, hindex, hread⟩
    · exact ⟨[], cursor, none, cursor, nofun, Cursor.passes_nil.mpr rfl,
        Nat.le_of_not_lt hindex, rfl⟩

/-- A reading that begins with some items goes on behind them. -/
theorem ReadsItems.append {count index : Nat} {front items : List Item} {middle last : Cursor}
    {fault : Option Fault} (hbelow : ∀ p ∈ Item.placedFrom index front, p.1 < count)
    (hpasses : cursor.Passes (front.flatMap Item.bytes) middle)
    (h : ReadsItems count (Item.behind index front) middle items stop fault last) :
    ReadsItems count index cursor (front ++ items) stop fault last where
  below p hp := by
    rw [Item.placedFrom_append] at hp
    rcases List.mem_append.mp hp with hp | hp
    · exact hbelow p hp
    · exact h.below p hp
  passes := by
    rw [List.flatMap_append]
    exact hpasses.append h.passes
  ends := by
    rw [Item.behind_append]
    exact h.ends

/-- The end of a run, with a fault or without. -/
def endAt (fault : Option Fault) (s : Cursor × σ) : EStateM.Result Fault (Cursor × σ) Unit :=
  match fault with
  | none => .ok () s
  | some fault => .error fault s

theorem exists_endAt_eq_error {fault : Option Fault} {stopped : Fault} {s : Cursor × σ} :
    (∃ s', endAt fault s = .error stopped s') ↔ fault = some stopped := by
  cases fault with
  | none => simp only [endAt, reduceCtorEq, exists_false]
  | some fault => simp [endAt]

/-- A reading of items leaves them in the record, each at its index, and ends as it says, whatever is
kept. -/
theorem ReadsItems.run_eq {count index : Nat} {items : List Item} {fault : Option Fault}
    {last : Cursor} (h : ReadsItems count index cursor items stop fault last)
    (keep : UInt16 → Constant → σ → σ) (record : σ) :
    readFrom keep count index (cursor, record) =
      endAt fault (last, keepPlaced keep (Item.placedFrom index items) record) := by
  have hends := h.ends
  rw [readFrom_of_passes keep h.below h.passes]
  cases fault with
  | none =>
    obtain ⟨hbehind, rfl⟩ := hends
    rw [readFrom_of_le keep hbehind]
    rfl
  | some fault =>
    obtain ⟨hbehind, hread⟩ := hends
    exact readFrom_of_error keep hbehind (Constant.read_error_congr _ hread)

end JarAudit.ClassFile
