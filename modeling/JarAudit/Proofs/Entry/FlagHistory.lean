import Mathlib.Data.List.Forall2
import Mathlib.Data.List.Perm.Basic
import JarAudit.Proofs.Entry.Pairwise

/-!
# Match flags over a whole history

A list of entries grows and shrinks, reports are made of it, and the last report is raised on it,
which may be one of an earlier and longer or shorter list. Whatever is done, and in whatever order,
flags only go up (`exists_raised_perform`, `exists_raised_after`), and each of them is counted once,
when it does: what is up at the end, or was when its entry was taken away, was up at the start, came
with an entry, or was counted (`upFlags_perform`, `upFlags_after`).

Both follow from what raising does to one list: every entry stays what it is but for flags that go
up (`forall₂_raiseAll`), and these are the ones that are counted (`raiseAll_snd`).
-/

namespace JarAudit

open DuplicateReport

/-- An entry is another one with flags that went up. -/
structure Entry.Raised (before after : Entry) : Prop where
  unflagged : after.unflagged = before.unflagged
  name : before.isNameMatch = true → after.isNameMatch = true
  checksum : before.isChecksumMatch = true → after.isChecksumMatch = true

theorem Entry.Raised.refl (entry : Entry) : entry.Raised entry := ⟨rfl, id, id⟩

theorem Entry.Raised.trans {a b c : Entry} (hab : a.Raised b) (hbc : b.Raised c) : a.Raised c where
  unflagged := hbc.unflagged.trans hab.unflagged
  name h := hbc.name (hab.name h)
  checksum h := hbc.checksum (hab.checksum h)

/-- The flags of an entry. -/
def Entry.flags (entry : Entry) : MatchFlags := ⟨entry.isNameMatch, entry.isChecksumMatch⟩

/-- How many flags of some entries are up. -/
def upFlags (entries : List Entry) : Nat :=
  entries.countP (·.isNameMatch) + entries.countP (·.isChecksumMatch)

/-- How many flags went up between two lists of the same entries. -/
def risenFlags (before after : List Entry) : Nat :=
  (before.zip after).countP (fun (old, new) => !old.isNameMatch && new.isNameMatch) +
    (before.zip after).countP fun (old, new) => !old.isChecksumMatch && new.isChecksumMatch

/-- What was true of some items of a list and stays true is counted before, and what becomes true is
counted beside it. -/
theorem countP_of_forall₂ {p : Entry → Bool} {before after : List Entry}
    (h : List.Forall₂ (fun old new => p old = true → p new = true) before after) :
    after.countP p =
      before.countP p + (before.zip after).countP fun (old, new) => !p old && p new := by
  induction h with
  | nil => rfl
  | @cons old new _ _ hfirst _ ih =>
    rw [List.zip_cons_cons, List.countP_cons, List.countP_cons, List.countP_cons, ih]
    by_cases hold : p old = true
    · have hnew := hfirst hold
      simp only [hold, hnew, Bool.not_true, Bool.false_and, if_true, Bool.false_eq_true, if_false]
      omega
    · rw [Bool.not_eq_true] at hold
      simp only [hold, Bool.not_false, Bool.true_and, Bool.false_eq_true, if_false]
      omega

/-- When flags only go up, those that are up afterwards were up before or went up. -/
theorem upFlags_of_forall₂_raised {before after : List Entry}
    (h : List.Forall₂ Entry.Raised before after) :
    upFlags after = upFlags before + risenFlags before after := by
  have hname := countP_of_forall₂ (p := (·.isNameMatch)) (h.imp fun _ _ hraised => hraised.name)
  have hchecksum := countP_of_forall₂ (p := (·.isChecksumMatch))
    (h.imp fun _ _ hraised => hraised.checksum)
  unfold upFlags risenFlags
  omega

/-! ### Raising flags on a list -/

namespace DuplicateReport

theorem raised_raise (flags : MatchFlags) (entry : Entry) : entry.Raised (raise flags entry) where
  unflagged := rfl
  name h := by rw [raise, h, Bool.true_or]
  checksum h := by rw [raise, h, Bool.true_or]

theorem raiseAll_nil (entries : List Entry) : raiseAll [] entries = (entries, 0) := by
  cases entries <;> rfl

theorem raiseAll_cons (flags : MatchFlags) (rest : List MatchFlags) (entry : Entry)
    (entries : List Entry) :
    raiseAll (flags :: rest) (entry :: entries) =
      (raise flags entry :: (raiseAll rest entries).1,
        newlyRaised flags entry + (raiseAll rest entries).2) := rfl

/-- Every entry stays in its place and is what it was but for flags that go up. -/
theorem forall₂_raiseAll (flags : List MatchFlags) (entries : List Entry) :
    List.Forall₂ Entry.Raised entries (raiseAll flags entries).1 := by
  induction flags generalizing entries with
  | nil =>
    rw [raiseAll_nil, List.forall₂_same]
    exact fun entry _ => .refl entry
  | cons first rest ih =>
    cases entries with
    | nil => exact .nil
    | cons entry entries => exact .cons (raised_raise first entry) (ih entries)

theorem map_unflagged_raiseAll (flags : List MatchFlags) (entries : List Entry) :
    (raiseAll flags entries).1.map Entry.unflagged = entries.map Entry.unflagged := by
  have hraised := forall₂_raiseAll flags entries
  rw [eq_comm, ← List.forall₂_eq_eq_eq, List.forall₂_map_left_iff, List.forall₂_map_right_iff]
  exact hraised.imp fun _ _ h => h.unflagged.symm

/-- The flags that go up are counted, and no others. -/
theorem raiseAll_snd (flags : List MatchFlags) (entries : List Entry) :
    (raiseAll flags entries).2 = risenFlags entries (raiseAll flags entries).1 := by
  unfold risenFlags
  induction flags generalizing entries with
  | nil =>
    rw [raiseAll_nil]
    induction entries with
    | nil => rfl
    | cons entry entries ih => simpa using ih
  | cons first rest ih =>
    cases entries with
    | nil => rfl
    | cons entry entries =>
      have hrisen : ∀ old flag : Bool, (!old && (old || flag)) = (flag && !old) := by decide
      have htoNat : ∀ flag : Bool, flag.toNat = if flag = true then 1 else 0 := by decide
      rw [raiseAll_cons, ih]
      simp only [List.zip_cons_cons, List.countP_cons, newlyRaised, raise, hrisen, htoNat]
      omega

/-- Raising the same flags again raises nothing. -/
theorem raiseAll_raiseAll (flags : List MatchFlags) (entries : List Entry) :
    raiseAll flags (raiseAll flags entries).1 = ((raiseAll flags entries).1, 0) := by
  induction flags generalizing entries with
  | nil => rw [raiseAll_nil]
  | cons first rest ih =>
    cases entries with
    | nil => rfl
    | cons entry entries =>
      have hsame : raise first (raise first entry) = raise first entry := by simp [raise]
      have hnone : newlyRaised first (raise first entry) = 0 := by
        simp only [newlyRaised, raise]
        cases first.name <;> cases first.checksum <;> simp
      simp only [raiseAll_cons, ih, hsame, hnone]

theorem upFlags_raiseAll (flags : List MatchFlags) (entries : List Entry) :
    upFlags (raiseAll flags entries).1 = upFlags entries + (raiseAll flags entries).2 := by
  rw [raiseAll_snd]
  exact upFlags_of_forall₂_raised (forall₂_raiseAll flags entries)

/-- On entries with all flags down, as many as there are flags, exactly these flags are up
afterwards. -/
theorem map_flags_raiseAll {flags : List MatchFlags} {entries : List Entry}
    (hlength : flags.length = entries.length)
    (hplain : ∀ entry ∈ entries, entry.unflagged = entry) :
    (raiseAll flags entries).1.map Entry.flags = flags := by
  induction flags generalizing entries with
  | nil =>
    rw [List.eq_nil_of_length_eq_zero hlength.symm]
    rfl
  | cons first rest ih =>
    cases entries with
    | nil => cases hlength
    | cons entry entries =>
      obtain ⟨hentry, hentries⟩ := List.forall_mem_cons.mp hplain
      have hfirst : (raise first entry).flags = first := by
        rw [← hentry]
        show (⟨false || first.name, false || first.checksum⟩ : MatchFlags) = first
        rw [Bool.false_or, Bool.false_or]
      rw [raiseAll_cons, List.map_cons, ih (Nat.succ.inj hlength) hentries, hfirst]

end DuplicateReport

/-! ### Histories -/

/-- Entries, and the last report that was made. -/
structure Inventory where
  entries : List Entry
  report : DuplicateReport := {}

namespace Inventory

/-- What is done to an inventory. -/
inductive Step
  | push (entry : Entry)
  | remove (place : Nat)
  | detect
  | apply

/-- The report that is applied may be one of other entries than there are by now. -/
def perform (inventory : Inventory) : Step → Inventory
  | .push entry => { inventory with entries := inventory.entries ++ [entry] }
  | .remove place => { inventory with entries := inventory.entries.eraseIdx place }
  | .detect => { inventory with report := detect inventory.entries }
  | .apply => { inventory with entries := (inventory.report.apply inventory.entries).1 }

/-- The count that a step gives back. Only applying a report does. -/
def count (inventory : Inventory) : Step → Nat
  | .apply => (inventory.report.apply inventory.entries).2
  | _ => 0

/-- The entries that a step takes away. -/
def leaving (inventory : Inventory) : Step → List Entry
  | .remove place => inventory.entries[place]?.toList
  | _ => []

/-- The entries that come with a step. -/
def Step.arriving : Step → List Entry
  | .push entry => [entry]
  | _ => []

/-- Where the entry of a place is after a step, if the step leaves it in. -/
def Step.move : Step → Nat → Option Nat
  | .remove place, i => if i = place then none else some (if place < i then i - 1 else i)
  | _, i => some i

/-- The inventory at the end of a history. -/
def after (inventory : Inventory) (steps : List Step) : Inventory := steps.foldl perform inventory

/-- All counts that are given back in a history, together. -/
def counts : Inventory → List Step → Nat
  | _, [] => 0
  | inventory, step :: rest => inventory.count step + (inventory.perform step).counts rest

/-- All entries that a history takes away, as they are when they go. -/
def departures : Inventory → List Step → List Entry
  | _, [] => []
  | inventory, step :: rest => inventory.leaving step ++ (inventory.perform step).departures rest

/-- Where the entry of a place is at the end of a history, if it is still in. -/
def placeAfter (steps : List Step) (i : Nat) : Option Nat :=
  steps.foldlM (fun i step => step.move i) i

/-! #### One step -/

variable {inventory : Inventory}

/-- No step takes a flag down on an entry that it leaves in. -/
theorem exists_raised_perform {step : Step} {i j : Nat} {entry : Entry}
    (hentry : inventory.entries[i]? = some entry) (hmove : step.move i = some j) :
    ∃ later, (inventory.perform step).entries[j]? = some later ∧ entry.Raised later := by
  obtain ⟨hi, hget⟩ := List.getElem?_eq_some_iff.mp hentry
  cases step with
  | push new =>
    obtain rfl := Option.some.inj hmove
    refine ⟨entry, ?_, .refl entry⟩
    show (inventory.entries ++ [new])[i]? = some entry
    rw [List.getElem?_append_left hi, hentry]
  | remove place =>
    refine ⟨entry, ?_, .refl entry⟩
    show (inventory.entries.eraseIdx place)[j]? = some entry
    simp only [Step.move] at hmove
    split at hmove
    · cases hmove
    · have hj := Option.some.inj hmove
      rw [List.getElem?_eraseIdx]
      split at hj
      · have hnot : ¬j < place := by omega
        have hback : j + 1 = i := by omega
        rw [if_neg hnot, hback, hentry]
      · have hbelow : j < place := by omega
        rw [if_pos hbelow, ← hj, hentry]
  | detect =>
    obtain rfl := Option.some.inj hmove
    exact ⟨entry, hentry, .refl entry⟩
  | apply =>
    obtain rfl := Option.some.inj hmove
    have hraised := forall₂_raiseAll inventory.report.flags inventory.entries
    have hlater := hraised.length_eq ▸ hi
    refine ⟨_, List.getElem?_eq_getElem hlater, ?_⟩
    rw [← hget]
    exact hraised.get hi hlater

theorem upFlags_append (entries others : List Entry) :
    upFlags (entries ++ others) = upFlags entries + upFlags others := by
  unfold upFlags
  rw [List.countP_append, List.countP_append]
  omega

theorem upFlags_perm {entries others : List Entry} (h : entries.Perm others) :
    upFlags entries = upFlags others := by
  rw [upFlags, upFlags, h.countP_eq, h.countP_eq]

/-- The flags that are up after a step, on the entries in it and on what it took away, were up
before, came with an entry, or are counted. -/
theorem upFlags_perform (inventory : Inventory) (step : Step) :
    upFlags (inventory.perform step).entries + upFlags (inventory.leaving step) =
      upFlags inventory.entries + upFlags step.arriving + inventory.count step := by
  cases step with
  | push entry => exact upFlags_append ..
  | remove place =>
    show upFlags (inventory.entries.eraseIdx place) + upFlags inventory.entries[place]?.toList =
      upFlags inventory.entries
    by_cases hplace : place < inventory.entries.length
    · rw [List.getElem?_eq_getElem hplace, Option.toList_some, Nat.add_comm, ← upFlags_append]
      exact upFlags_perm (List.getElem_cons_eraseIdx_perm hplace)
    · rw [List.getElem?_eq_none (by omega), List.eraseIdx_of_length_le (by omega)]
      rfl
  | detect => rfl
  | apply => exact upFlags_raiseAll ..

/-! #### A whole history -/

/-- No history takes a flag down on an entry that it leaves in. -/
theorem exists_raised_after {steps : List Step} {i j : Nat} {entry : Entry}
    (hentry : inventory.entries[i]? = some entry) (hplace : placeAfter steps i = some j) :
    ∃ later, (inventory.after steps).entries[j]? = some later ∧ entry.Raised later := by
  induction steps generalizing inventory i entry with
  | nil =>
    obtain rfl := Option.some.inj hplace
    exact ⟨entry, hentry, .refl entry⟩
  | cons step rest ih =>
    obtain ⟨k, hmove, hrest⟩ := Option.bind_eq_some_iff.mp hplace
    obtain ⟨next, hnext, hraised⟩ := exists_raised_perform hentry hmove
    obtain ⟨later, hlater, hraised'⟩ := ih hnext hrest
    exact ⟨later, hlater, hraised.trans hraised'⟩

/-- All flags that are up at the end of a history, or were when their entry was taken away, were up
at the start, came with an entry, or were counted once. -/
theorem upFlags_after (inventory : Inventory) (steps : List Step) :
    upFlags (inventory.after steps).entries + upFlags (inventory.departures steps) =
      upFlags inventory.entries + upFlags (steps.flatMap Step.arriving) +
        inventory.counts steps := by
  induction steps generalizing inventory with
  | nil => rfl
  | cons step rest ih =>
    have hstep := upFlags_perform inventory step
    have hrest := ih (inventory.perform step)
    show upFlags ((inventory.perform step).after rest).entries +
        upFlags (inventory.leaving step ++ (inventory.perform step).departures rest) =
      upFlags inventory.entries + upFlags (step.arriving ++ rest.flatMap Step.arriving) +
        (inventory.count step + (inventory.perform step).counts rest)
    rw [upFlags_append, upFlags_append]
    omega

/-- Reports that are made and applied leave everything about the entries but their flags. -/
theorem map_unflagged_after {steps : List Step}
    (hsteps : ∀ step ∈ steps, step = .detect ∨ step = .apply) :
    (inventory.after steps).entries.map Entry.unflagged =
      inventory.entries.map Entry.unflagged := by
  induction steps generalizing inventory with
  | nil => rfl
  | cons step rest ih =>
    obtain ⟨hstep, hrest⟩ := List.forall_mem_cons.mp hsteps
    refine (ih hrest).trans ?_
    rcases hstep with rfl | rfl
    · rfl
    · exact map_unflagged_raiseAll ..

/-- Flags go up and never down in a history. Each report that is applied gives back how many
flags it raises, touches nothing else, and has nothing left to raise the next time. As long as no
entry comes or goes the same report is made again, and the first one that is applied to entries
with all flags down raises exactly the flags it has. -/
theorem flags_after (start : Inventory) (steps : List Step) :
    (∀ (i j : Nat) (entry : Entry), start.entries[i]? = some entry → placeAfter steps i = some j →
      ∃ later, (start.after steps).entries[j]? = some later ∧ entry.Raised later) ∧
    upFlags (start.after steps).entries + upFlags (start.departures steps) =
      upFlags start.entries + upFlags (steps.flatMap Step.arriving) + start.counts steps ∧
    let reached := start.after steps
    let applied := reached.perform .apply
    reached.count .apply = risenFlags reached.entries applied.entries ∧
    applied.entries.map Entry.unflagged = reached.entries.map Entry.unflagged ∧
    applied.perform .apply = applied ∧ applied.count .apply = 0 ∧
    (∀ between : List Step, (∀ step ∈ between, step = .detect ∨ step = .apply) →
      (((reached.perform .detect).after between).perform .detect).report =
        (reached.perform .detect).report) ∧
    ((∀ entry ∈ reached.entries, entry.unflagged = entry) →
      ((reached.perform .detect).perform .apply).entries.map Entry.flags =
        (detect reached.entries).flags) := by
  refine ⟨fun i j entry hentry hplace => exists_raised_after hentry hplace,
    upFlags_after start steps, ?_⟩
  intro reached applied
  have hagain : reached.report.apply applied.entries = (applied.entries, 0) := raiseAll_raiseAll ..
  refine ⟨raiseAll_snd .., map_unflagged_raiseAll .., ?_, congrArg Prod.snd hagain, ?_, ?_⟩
  · show { applied with entries := (reached.report.apply applied.entries).1 } = applied
    rw [hagain]
  · intro between hbetween
    exact detect_congr (map_unflagged_after hbetween)
  · intro hplain
    exact map_flags_raiseAll (List.length_map ..) hplain

end Inventory
end JarAudit
