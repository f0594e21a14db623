import Mathlib.Algebra.GroupWithZero.Nat
import JarAudit.Proofs.ClassFile.RoundTrip

/-!
# Positions along a run

A reader is asked for one thing after the other, and goes on from where it stands also when it could
not give what it was asked for. Each step takes runs of bytes in turn, whose widths the bytes in front
of it tell (`Step.widths`). Either it takes them all, or it stops in front of the first that is not
all there (`Takes`); only a tag that no constant has stops it otherwise. So the position is exact
behind every step, and a fault says where the reader stands (`Step.ends_perform`); whatever the steps
before it did, what is left to be read is the image from the position on (`positions_exact`).
-/

namespace JarAudit.ClassFile

open JarAudit.Text Reader

variable {σ α β : Type}

theorem Cursor.Passes.unique {cursor next : Cursor} {bytes bytes' : List UInt8}
    (h : cursor.Passes bytes next) (h' : cursor.Passes bytes' next) : bytes = bytes' :=
  List.append_cancel_right (h.1.symm.trans h'.1)

/-! ### Runs of bytes -/

/-- How a step ends that takes runs of bytes of these widths in turn. It takes them all, or as many
as are there in front of one that is not. -/
inductive Takes (record : σ) (cursor : Cursor) (widths : List Nat) :
    EStateM.Result Fault (Cursor × σ) α → Prop
  | whole {a : α} {next : Cursor} {between : List UInt8} (hpasses : cursor.Passes between next)
    (hlength : between.length = widths.sum) : Takes record cursor widths (.ok a (next, record))
  | short {next : Cursor} {between : List UInt8} {needed : Nat} (done later : List Nat)
    (hsplit : widths = done ++ needed :: later) (hpasses : cursor.Passes between next)
    (hlength : between.length = done.sum) (hshort : next.remaining < needed) :
    Takes record cursor widths
      (.error (.truncated next.position needed next.remaining) (next, record))

namespace Takes

variable {record : σ} {cursor next : Cursor} {widths later : List Nat} {m : Reader σ α}
  {f : α → Reader σ β}

theorem pure (a : α) : Takes record cursor [] ((pure a : Reader σ α) (cursor, record)) :=
  .whole (Cursor.passes_nil.mpr rfl) rfl

/-- A run that is there may be put in front. -/
theorem behind {between : List UInt8} {result : EStateM.Result Fault (Cursor × σ) α}
    (hpasses : cursor.Passes between next) (h : Takes record next later result) :
    Takes record cursor (between.length :: later) result := by
  cases h with
  | whole hpasses' hlength =>
    refine .whole (hpasses.append hpasses') ?_
    rw [List.length_append, List.sum_cons, hlength]
  | short done left hsplit hpasses' hlength hshort =>
    refine .short (between.length :: done) left ?_ (hpasses.append hpasses') ?_ hshort
    · rw [hsplit, List.cons_append]
    · rw [List.length_append, List.sum_cons, hlength]

/-- A step that takes more runs behind those of another. -/
theorem bind (hm : Takes record cursor widths (m (cursor, record)))
    (hf : ∀ a next, m (cursor, record) = .ok a (next, record) →
      Takes record next later (f a (next, record))) :
    Takes record cursor (widths ++ later) ((m >>= f) (cursor, record)) := by
  rw [bind_run]
  generalize m (cursor, record) = result at hm hf
  cases hm with
  | @whole a next between hpasses hlength =>
    -- The second step goes on where the first has taken all its runs.
    have hrest := hf a next rfl
    show Takes record cursor (widths ++ later) (f a (next, record))
    generalize f a (next, record) = last at hrest
    cases hrest with
    | whole hpasses' hlength' =>
      refine .whole (hpasses.append hpasses') ?_
      rw [List.length_append, List.sum_append, hlength, hlength']
    | short done left hsplit hpasses' hlength' hshort =>
      refine .short (widths ++ done) left ?_ (hpasses.append hpasses') ?_ hshort
      · rw [hsplit, List.append_assoc]
      · rw [List.length_append, List.sum_append, hlength, hlength']
  | short done left hsplit hpasses hlength hshort =>
    -- The second step is not reached, so its runs are among those that are left.
    refine .short done (left ++ later) ?_ hpasses hlength hshort
    rw [hsplit, List.append_assoc, List.cons_append]

/-- What is answered may be changed on the way out. -/
theorem map (hm : Takes record cursor widths (m (cursor, record))) (g : α → β) :
    Takes record cursor widths ((m >>= fun a => Pure.pure (g a)) (cursor, record)) := by
  have h := hm.bind fun a next _ => pure (g a)
  rwa [List.append_nil] at h

theorem bytes (count : Nat) : Takes record cursor [count] (bytes count (cursor, record)) := by
  cases hread : Reader.bytes count (cursor, record) with
  | ok out s =>
    obtain ⟨next, after⟩ := s
    obtain ⟨hlength, hpasses, rfl⟩ := bytes_eq_ok.mp hread
    exact .whole hpasses (by rw [hlength, List.sum_singleton])
  | error fault s =>
    rw [Reader.bytes] at hread
    split at hread
    case isTrue => cases hread
    case isFalse hfew =>
      rw [hasAtLeast_iff, Nat.not_le] at hfew
      obtain ⟨rfl, rfl⟩ := EStateM.Result.error.inj hread
      exact .short [] [] rfl (Cursor.passes_nil.mpr rfl) rfl hfew

theorem skip (count : Nat) : Takes record cursor [count] (skip count (cursor, record)) := by
  rw [skip_eq_bytes]
  exact (bytes count).map _

theorem u1 : Takes record cursor [1] (u1 (cursor, record)) := (bytes 1).map _

theorem u2 : Takes record cursor [2] (u2 (cursor, record)) := (bytes 2).map _

theorem u4 : Takes record cursor [4] (u4 (cursor, record)) := (bytes 4).map _

theorem i4 : Takes record cursor [4] (i4 (cursor, record)) := u4.map _

theorem u8 : Takes record cursor [4, 4] (u8 (cursor, record)) :=
  u4.bind fun _ _ _ => u4.map _

/-- Two indices, put together in any way. -/
theorem pair (g : UInt16 → UInt16 → α) :
    Takes record cursor [2, 2]
      ((do return g (← Reader.u2) (← Reader.u2) : Reader σ α) (cursor, record)) :=
  u2.bind fun _ _ _ => u2.map _

end Takes

/-! ### Texts and constants -/

/-- The runs of a text: its length, and as many bytes as that says. -/
def textWidths (front : List UInt8) : List Nat := [2, bigEndian (front.take 2)]

/-- The runs that a constant takes behind its tag. -/
def operandWidths (tag : UInt8) (front : List UInt8) : List Nat :=
  match tag with
  | 1 => textWidths front
  | 3 | 4 => [4]
  | 5 | 6 => [4, 4]
  | 7 | 8 | 16 | 19 | 20 => [2]
  | 9 | 10 | 11 | 12 | 17 | 18 => [2, 2]
  | 15 => [1, 2]
  | _ => []

/-- The runs of a constant. -/
def constantWidths : List UInt8 → List Nat
  | [] => [1]
  | tag :: front => 1 :: operandWidths tag front

theorem Takes.utf8 {record : σ} {cursor : Cursor} :
    Takes record cursor (textWidths cursor.rest) (utf8 (cursor, record)) := by
  show Takes record cursor ([2] ++ [bigEndian (cursor.rest.take 2)]) _
  refine u2.bind fun length next hlength => ?_
  -- The first run tells how wide the second one is.
  obtain ⟨hpasses, -⟩ := u2_eq_ok.mp hlength
  have hwidth : bigEndian (cursor.rest.take 2) = length.toNat := by
    rw [hpasses.1, List.take_left' (length_bigEndianBytes _ _), bigEndian_bigEndianBytes]
    exact Nat.mod_eq_of_lt length.toNat_lt
  rw [hwidth]
  exact (bytes length.toNat).map _

/-- The tags that constants have. -/
def knownTags : List UInt8 := [1, 3, 4, 5, 6, 7, 8, 9, 10, 11, 12, 15, 16, 17, 18, 19, 20]

/-- A constant is taken run by run, unless no constant has its tag: then the tag is reported with its
offset, and the reader stands behind it. -/
theorem Constant.read_takes (index : UInt16) (cursor : Cursor) (record : σ) :
    Takes record cursor (constantWidths cursor.rest) (read index (cursor, record)) ∨
      ∃ tag next, tag ∉ knownTags ∧ cursor.Passes [tag] next ∧
        read index (cursor, record) =
          .error (.unknownTag tag index cursor.position) (next, record) := by
  have hposition : (position : Reader σ Nat) (cursor, record) =
      .ok cursor.position (cursor, record) := rfl
  rw [read, bind_of_eq_ok hposition]
  cases hrest : cursor.rest with
  | nil =>
    refine .inl ?_
    show Takes record cursor ([1] ++ []) _
    refine Takes.u1.bind fun tag next htag => ?_
    obtain ⟨hpasses, -⟩ := u1_eq_ok.mp htag
    have hcons : cursor.rest = tag :: next.rest := hpasses.1
    rw [hrest] at hcons
    cases hcons
  | cons tag front =>
    have hpasses : cursor.Passes [tag] ⟨cursor.position + 1, front⟩ := ⟨hrest, rfl⟩
    rw [bind_of_eq_ok (u1_eq_ok.mpr ⟨hpasses, rfl⟩), constantWidths]
    -- One case for each tag, in the order in which they are looked for.
    split
    case h_1 => exact .inl (.behind hpasses (Takes.utf8.map _))
    case h_2 => exact .inl (.behind hpasses (Takes.i4.map _))
    case h_3 => exact .inl (.behind hpasses (Takes.u4.map _))
    case h_4 | h_5 => exact .inl (.behind hpasses (Takes.u8.map _))
    case h_8 | h_9 | h_10 => exact .inl (.behind hpasses ((Takes.pair _).map _))
    case h_11 | h_14 | h_15 => exact .inl (.behind hpasses (Takes.pair _))
    case h_12 => exact .inl (.behind hpasses (Takes.u1.bind fun _ _ _ => Takes.u2.map _))
    case h_18 =>
      refine .inr ⟨tag, _, ?_, hpasses, rfl⟩
      simp_all [knownTags]
    all_goals exact .inl (.behind hpasses (Takes.u2.map _))

/-! ### Steps -/

/-- What a reader may be asked for. -/
inductive Step where
  | u1
  | u2
  | u4
  | i4
  | utf8
  | skip (count : Nat)
  /-- The constant that is to stand at `index`. -/
  | constant (index : UInt16)

/-- What a reader may give. -/
inductive Answer where
  | u1 (value : UInt8)
  | u2 (value : UInt16)
  | u4 (value : UInt32)
  | i4 (value : Int32)
  | utf8 (text : Option String)
  | skipped
  | constant (constant : Option Constant)
  deriving DecidableEq

namespace Step

/-- Asks a reader. -/
def read : Step → Reader Unit Answer
  | u1 => do return .u1 (← Reader.u1)
  | u2 => do return .u2 (← Reader.u2)
  | u4 => do return .u4 (← Reader.u4)
  | i4 => do return .i4 (← Reader.i4)
  | utf8 => do return .utf8 (← Reader.utf8)
  | skip count => do let _ ← Reader.skip count; return .skipped
  | constant index => do return .constant (← Constant.read index)

/-- What a reader at a place answers, and where it stands afterwards. -/
def perform (step : Step) (cursor : Cursor) : Except Fault Answer × Cursor :=
  match step.read (cursor, ()) with
  | .ok answer s => (.ok answer, s.1)
  | .error fault s => (.error fault, s.1)

/-- The runs of bytes that a step takes, by the bytes in front of the reader. -/
def widths : Step → List UInt8 → List Nat
  | u1, _ => [1]
  | u2, _ => [2]
  | u4, _ => [4]
  | i4, _ => [4]
  | utf8, front => textWidths front
  | skip count, _ => [count]
  | constant _, front => constantWidths front

/-- The same step, for a constant at another index. -/
def withIndex (index : UInt16) : Step → Step
  | constant _ => constant index
  | step => step

/-- How a step ends. -/
inductive Ends (step : Step) (before : Cursor) : Except Fault Answer → Cursor → Prop
  /-- It takes all its runs. The same bytes give the same answer wherever they stand, whatever follows
  them, and whatever the index of a constant is. -/
  | answered {answer : Answer} {after : Cursor} {between : List UInt8}
    (hpasses : before.Passes between after)
    (hlength : between.length = (step.widths before.rest).sum)
    (halike : ∀ index other next, other.Passes between next →
      (step.withIndex index).perform other = (.ok answer, next)) :
    Ends step before (.ok answer) after
  /-- It takes the runs in front of one that is not all there. -/
  | short {after : Cursor} {between : List UInt8} {needed : Nat} (done later : List Nat)
    (hsplit : step.widths before.rest = done ++ needed :: later)
    (hpasses : before.Passes between after) (hlength : between.length = done.sum)
    (hshort : after.remaining < needed) :
    Ends step before (.error (.truncated after.position needed after.remaining)) after
  /-- It takes a tag that no constant has. -/
  | unknown {index : UInt16} {tag : UInt8} {after : Cursor} (hstep : step = constant index)
    (htag : tag ∉ knownTags) (hpasses : before.Passes [tag] after) :
    Ends step before (.error (.unknownTag tag index before.position)) after

theorem perform_eq_ok {step : Step} {cursor next : Cursor} {answer : Answer} :
    step.perform cursor = (.ok answer, next) ↔
      step.read (cursor, ()) = .ok answer (next, ()) := by
  rw [perform]
  cases step.read (cursor, ()) with
  | ok found s =>
    constructor
    · intro h
      obtain ⟨hanswer, rfl⟩ := Prod.mk.inj h
      rw [Except.ok.inj hanswer]
    · rintro ⟨⟩
      rfl
  | error fault s =>
    constructor
    · intro h
      cases (Prod.mk.inj h).1
    · nofun

/-- A step that answers does so by the bytes that it passes over. -/
theorem exists_alike {step : Step} {cursor next : Cursor} {answer : Answer}
    (h : step.read (cursor, ()) = .ok answer (next, ())) :
    ∃ between, cursor.Passes between next ∧ ∀ index other last, other.Passes between last →
      (step.withIndex index).read (other, ()) = .ok answer (last, ()) := by
  cases step with
  | u1 =>
    obtain ⟨value, hvalue, rfl⟩ := bind_pure_eq_ok.mp h
    refine ⟨_, (u1_eq_ok.mp hvalue).1, fun _ other last hother => ?_⟩
    exact bind_pure_eq_ok.mpr ⟨value, u1_eq_ok.mpr ⟨hother, rfl⟩, rfl⟩
  | u2 =>
    obtain ⟨value, hvalue, rfl⟩ := bind_pure_eq_ok.mp h
    refine ⟨_, (u2_eq_ok.mp hvalue).1, fun _ other last hother => ?_⟩
    exact bind_pure_eq_ok.mpr ⟨value, u2_eq_ok.mpr ⟨hother, rfl⟩, rfl⟩
  | u4 =>
    obtain ⟨value, hvalue, rfl⟩ := bind_pure_eq_ok.mp h
    refine ⟨_, (u4_eq_ok.mp hvalue).1, fun _ other last hother => ?_⟩
    exact bind_pure_eq_ok.mpr ⟨value, u4_eq_ok.mpr ⟨hother, rfl⟩, rfl⟩
  | i4 =>
    obtain ⟨value, hvalue, rfl⟩ := bind_pure_eq_ok.mp h
    refine ⟨_, (i4_eq_ok.mp hvalue).1, fun _ other last hother => ?_⟩
    exact bind_pure_eq_ok.mpr ⟨value, i4_eq_ok.mpr ⟨hother, rfl⟩, rfl⟩
  | utf8 =>
    obtain ⟨text, htext, rfl⟩ := bind_pure_eq_ok.mp h
    obtain ⟨payload, hlt, hpasses, hdecode, -⟩ := utf8_eq_ok.mp htext
    refine ⟨_, hpasses, fun _ other last hother => ?_⟩
    exact bind_pure_eq_ok.mpr ⟨text, utf8_eq_ok.mpr ⟨payload, hlt, hother, hdecode, rfl⟩, rfl⟩
  | skip count =>
    obtain ⟨_, hskip, rfl⟩ := bind_pure_eq_ok.mp h
    obtain ⟨out, hlength, hpasses, -⟩ := skip_eq_ok.mp hskip
    refine ⟨out, hpasses, fun _ other last hother => ?_⟩
    exact bind_pure_eq_ok.mpr ⟨(), skip_eq_ok.mpr ⟨out, hlength, hother, rfl⟩, rfl⟩
  | constant own =>
    obtain ⟨found, hread, rfl⟩ := bind_pure_eq_ok.mp h
    obtain ⟨item, hitem, hpasses, -⟩ := Constant.read_eq_ok.mp hread
    refine ⟨item.bytes, hpasses, fun index other last hother => ?_⟩
    exact bind_pure_eq_ok.mpr ⟨found, Constant.read_eq_ok.mpr ⟨item, hitem, hother, rfl⟩, rfl⟩

/-- A step takes its runs one by one, unless it finds a tag that no constant has. -/
theorem read_takes (step : Step) (cursor : Cursor) :
    Takes () cursor (step.widths cursor.rest) (step.read (cursor, ())) ∨
      ∃ index tag next, step = constant index ∧ tag ∉ knownTags ∧ cursor.Passes [tag] next ∧
        step.read (cursor, ()) = .error (.unknownTag tag index cursor.position) (next, ()) := by
  cases step with
  | u1 => exact .inl (Takes.u1.map _)
  | u2 => exact .inl (Takes.u2.map _)
  | u4 => exact .inl (Takes.u4.map _)
  | i4 => exact .inl (Takes.i4.map _)
  | utf8 => exact .inl (Takes.utf8.map _)
  | skip count => exact .inl ((Takes.skip count).map _)
  | constant index =>
    obtain htakes | ⟨tag, next, htag, hpasses, hread⟩ := Constant.read_takes index cursor ()
    · exact .inl (htakes.map _)
    · exact .inr ⟨index, tag, next, rfl, htag, hpasses, bind_of_eq_error hread⟩

/-- Each step ends in one of the three ways. -/
theorem ends_perform (step : Step) (cursor : Cursor) :
    step.Ends cursor (step.perform cursor).1 (step.perform cursor).2 := by
  obtain htakes | ⟨index, tag, next, hstep, htag, hpasses, hread⟩ := step.read_takes cursor
  · unfold perform
    generalize hread : step.read (cursor, ()) = result at htakes
    cases htakes with
    | @whole answer next between hpasses hlength =>
      obtain ⟨between', hpasses', halike⟩ := exists_alike hread
      -- The bytes that tell the answer are those that were taken.
      obtain rfl := hpasses.unique hpasses'
      refine .answered hpasses hlength fun index other last hother => ?_
      exact perform_eq_ok.mpr (halike index other last hother)
    | short done later hsplit hpasses hlength hshort =>
      exact .short done later hsplit hpasses hlength hshort
  · unfold perform
    rw [hread]
    exact .unknown hstep htag hpasses

/-- However a step ends, it has passed over some bytes. -/
theorem Ends.exists_passes {step : Step} {before after : Cursor} {outcome : Except Fault Answer}
    (h : step.Ends before outcome after) : ∃ between, before.Passes between after := by
  cases h with
  | answered hpasses _ _ => exact ⟨_, hpasses⟩
  | short _ _ _ hpasses _ _ => exact ⟨_, hpasses⟩
  | unknown _ _ hpasses => exact ⟨_, hpasses⟩

/-! ### Runs -/

/-- Where a reader stands that was asked for one thing after the other, whatever came of it. -/
def run (steps : List Step) (cursor : Cursor) : Cursor :=
  steps.foldl (fun cursor step => (step.perform cursor).2) cursor

theorem run_append (steps later : List Step) (cursor : Cursor) :
    run (steps ++ later) cursor = run later (run steps cursor) :=
  List.foldl_append

/-- A run passes over the bytes between the places at which it starts and ends. -/
theorem exists_passes_run (steps : List Step) (cursor : Cursor) :
    ∃ between, cursor.Passes between (run steps cursor) := by
  induction steps generalizing cursor with
  | nil => exact ⟨[], Cursor.passes_nil.mpr rfl⟩
  | cons step steps ih =>
    obtain ⟨first, hfirst⟩ := (step.ends_perform cursor).exists_passes
    obtain ⟨others, hothers⟩ := ih (step.perform cursor).2
    exact ⟨first ++ others, hfirst.append hothers⟩

/-- The position never goes back. -/
theorem position_le_run (steps : List Step) (cursor : Cursor) :
    cursor.position ≤ (run steps cursor).position := by
  obtain ⟨between, hpasses⟩ := exists_passes_run steps cursor
  rw [hpasses.2]
  exact Nat.le_add_right _ _

/-- A run from the front has passed over as many bytes as its position says. -/
theorem exists_eq_append_run_front (image : List UInt8) (steps : List Step) :
    ∃ between, image = between ++ (run steps (Cursor.front image)).rest ∧
      (run steps (Cursor.front image)).position = between.length := by
  obtain ⟨between, hrest, hposition⟩ := exists_passes_run steps (Cursor.front image)
  refine ⟨between, hrest, ?_⟩
  rw [hposition, show (Cursor.front image).position = 0 from rfl, Nat.zero_add]

/-- What is left to be read is the image from the position on. -/
theorem rest_run_front (image : List UInt8) (steps : List Step) :
    (run steps (Cursor.front image)).rest =
      image.drop (run steps (Cursor.front image)).position := by
  obtain ⟨between, himage, hposition⟩ := exists_eq_append_run_front image steps
  rw [hposition]
  conv_rhs => rw [himage]
  exact List.drop_left.symm

theorem position_add_remaining_run (image : List UInt8) (steps : List Step) :
    (run steps (Cursor.front image)).position + (run steps (Cursor.front image)).remaining =
      image.length := by
  obtain ⟨between, himage, hposition⟩ := exists_eq_append_run_front image steps
  rw [hposition]
  conv_rhs => rw [himage, List.length_append]
  rfl

end Step

/-- **Positions.** Behind any steps, failed ones among them, a reader stands in the image: what is
left is the image from the position on, and the position and the number of bytes that are left add up
to its length. Whatever is asked for then, the position does not go back, and the step ends in one of
the three ways. -/
theorem positions_exact (image : List UInt8) (steps : List Step) :
    let before := Step.run steps (Cursor.front image)
    before.rest = image.drop before.position ∧
      before.position + before.remaining = image.length ∧
      (∀ later, before.position ≤ (Step.run (steps ++ later) (Cursor.front image)).position) ∧
      ∀ step, ∃ outcome after, step.perform before = (outcome, after) ∧
        after = Step.run (steps ++ [step]) (Cursor.front image) ∧ step.Ends before outcome after := by
  intro before
  refine ⟨Step.rest_run_front image steps, Step.position_add_remaining_run image steps,
    fun later => ?_, fun step => ?_⟩
  · rw [Step.run_append]
    exact Step.position_le_run later before
  · refine ⟨(step.perform before).1, (step.perform before).2, rfl, ?_, step.ends_perform before⟩
    rw [Step.run_append]
    rfl

/-- The second index of a member is cut off: the first one stays taken. -/
example : (Step.constant 7).perform (Cursor.front [10, 0, 1, 0]) =
    (.error (.truncated 3 2 1), ⟨3, [0]⟩) := rfl

end JarAudit.ClassFile
