import JarAudit.Proofs.ClassFile.Run

/-!
# Steps that leave the record alone

The same step can be taken with records of different types, as reading constants is for an outline
and for the findings of a scan. `Parallel m m'` says that two steps are put together in the same way
from primitives, none of which looks at the record or changes it. A law of such steps is proved by
one induction over how they are put together, and holds of `Constant.read` with all its kinds
(`Constant.read_parallel`) as it holds of a single byte. `Parallel.run_eq` is the first of them:
parallel steps run alike and leave their records as they were.
-/

namespace JarAudit.ClassFile

open JarAudit.Text

variable {σ τ α β : Type}

namespace Reader

/-- The end of a run: the cursor and the record. -/
def final : EStateM.Result Fault (Cursor × σ) α → Cursor × σ
  | .ok _ s => s
  | .error _ s => s

/-- A run with another record at its end. -/
def withRecord (record : τ) :
    EStateM.Result Fault (Cursor × σ) α → EStateM.Result Fault (Cursor × τ) α
  | .ok a s => .ok a (s.1, record)
  | .error fault s => .error fault (s.1, record)

/-- Two steps, put together in the same way from primitives that leave the record alone. The faults
that they raise on their own are structural. -/
inductive Parallel : {α : Type} → Reader σ α → Reader τ α → Prop
  | pure {α : Type} (a : α) : Parallel (pure a) (pure a)
  | bind {α β : Type} {m : Reader σ α} {m' : Reader τ α} {f : α → Reader σ β}
      {f' : α → Reader τ β} (hm : Parallel m m') (hf : ∀ a, Parallel (f a) (f' a)) :
      Parallel (m >>= f) (m' >>= f')
  | position : Parallel position position
  | bytes (count : Nat) : Parallel (bytes count) (bytes count)
  | fail {α : Type} (fault : Fault) (hfault : fault.isStructural = true) :
      Parallel (fail (α := α) fault) (fail fault)

namespace Parallel

variable {m : Reader σ α} {m' : Reader τ α}

/-- What parallel steps answer may be changed alike on the way out. -/
theorem bind_pure (hm : Parallel m m') (g : α → β) :
    Parallel (m >>= fun a => Pure.pure (g a)) (m' >>= fun a => Pure.pure (g a)) :=
  hm.bind fun a => pure (g a)

/-- Parallel steps answer alike, stop alike and leave each its own record as it was. -/
theorem run_eq (h : Parallel m m') (cursor : Cursor) (record : σ) (other : τ) :
    (final (m (cursor, record))).2 = record ∧
      m' (cursor, other) = withRecord other (m (cursor, record)) := by
  induction h generalizing cursor with
  | pure a => exact ⟨rfl, rfl⟩
  | @bind _ _ m m' f f' _ _ ihm ihf =>
    obtain ⟨hrecord, hrun⟩ := ihm cursor
    rw [bind_run, bind_run, hrun]
    cases hm : m (cursor, record) with
    | ok a s =>
      -- Both second steps start at the same place with the same answer, and each with its record.
      rw [hm] at hrecord
      obtain ⟨next, kept⟩ := s
      obtain rfl : kept = record := hrecord
      exact ihf a next
    | error fault s =>
      rw [hm] at hrecord
      exact ⟨hrecord, rfl⟩
  | position => exact ⟨rfl, rfl⟩
  | bytes count =>
    rw [Reader.bytes, Reader.bytes]
    split <;> exact ⟨rfl, rfl⟩
  | fail fault _ => exact ⟨rfl, rfl⟩

/-- Parallel steps succeed with the same answer or fail with the same fault, and end with the records
with which they began. -/
theorem run_cases (h : Parallel m m') (cursor : Cursor) (record : σ) (other : τ) :
    (∃ a next, m (cursor, record) = .ok a (next, record) ∧
      m' (cursor, other) = .ok a (next, other)) ∨
    ∃ fault next, m (cursor, record) = .error fault (next, record) ∧
      m' (cursor, other) = .error fault (next, other) := by
  obtain ⟨hrecord, hrun⟩ := h.run_eq cursor record other
  rw [hrun]
  cases hm : m (cursor, record) with
  | ok a s =>
    rw [hm] at hrecord
    exact .inl ⟨a, s.1, congrArg (fun kept => EStateM.Result.ok a (s.1, kept)) hrecord, rfl⟩
  | error fault s =>
    rw [hm] at hrecord
    exact .inr ⟨fault, s.1,
      congrArg (fun kept => EStateM.Result.error fault (s.1, kept)) hrecord, rfl⟩

end Parallel

/-! ### The steps that read a class image -/

theorem u1_parallel : Parallel (u1 : Reader σ UInt8) (u1 : Reader τ UInt8) :=
  (Parallel.bytes 1).bind_pure fun bytes => UInt8.ofNat (bigEndian bytes)

theorem u2_parallel : Parallel (u2 : Reader σ UInt16) (u2 : Reader τ UInt16) :=
  (Parallel.bytes 2).bind_pure fun bytes => UInt16.ofNat (bigEndian bytes)

theorem u4_parallel : Parallel (u4 : Reader σ UInt32) (u4 : Reader τ UInt32) :=
  (Parallel.bytes 4).bind_pure fun bytes => UInt32.ofNat (bigEndian bytes)

theorem i4_parallel : Parallel (i4 : Reader σ Int32) (i4 : Reader τ Int32) :=
  u4_parallel.bind_pure UInt32.toInt32

theorem u8_parallel : Parallel (u8 : Reader σ UInt64) (u8 : Reader τ UInt64) :=
  u4_parallel.bind fun high =>
    u4_parallel.bind_pure fun low => (high.toUInt64 <<< 32) ||| low.toUInt64

theorem skip_parallel (count : Nat) :
    Parallel (skip count : Reader σ Unit) (skip count : Reader τ Unit) := by
  rw [skip_eq_bytes, skip_eq_bytes]
  exact (Parallel.bytes count).bind_pure fun _ => ()

theorem utf8_parallel : Parallel (utf8 : Reader σ (Option String)) (utf8 : Reader τ _) :=
  u2_parallel.bind fun length =>
    (Parallel.bytes length.toNat).bind_pure fun payload => (ModifiedUtf8.decode payload).toOption

theorem times_parallel {m : Reader σ Unit} {m' : Reader τ Unit} (h : Parallel m m') (count : Nat) :
    Parallel (times count m) (times count m') := by
  induction count with
  | zero => exact .pure ()
  | succ count ih => exact h.bind fun _ => ih

end Reader

open Reader

theorem Constant.readMember_parallel :
    Parallel (readMember : Reader σ MemberRef) (readMember : Reader τ MemberRef) :=
  u2_parallel.bind fun classIndex => u2_parallel.bind_pure fun pair => MemberRef.mk classIndex pair

/-- A constant is read without regard to what is made of it. -/
theorem Constant.read_parallel (index : UInt16) :
    Parallel (read index : Reader σ (Option Constant)) (read index : Reader τ _) := by
  refine Parallel.position.bind fun offset => u1_parallel.bind fun tag => ?_
  split
  case h_1 => exact utf8_parallel.bind_pure fun text => text.map utf8
  case h_2 => exact i4_parallel.bind_pure fun value => some (integer value)
  case h_3 => exact u4_parallel.bind_pure fun bits => some (float bits)
  case h_4 => exact u8_parallel.bind_pure fun bits => some (long bits.toInt64)
  case h_5 => exact u8_parallel.bind_pure fun bits => some (double bits)
  case h_6 => exact u2_parallel.bind_pure fun name => some (classRef name)
  case h_7 => exact u2_parallel.bind_pure fun text => some (string text)
  case h_8 => exact readMember_parallel.bind_pure fun member => some (field member)
  case h_9 => exact readMember_parallel.bind_pure fun member => some (method member)
  case h_10 => exact readMember_parallel.bind_pure fun member => some (interfaceMethod member)
  case h_11 =>
    exact u2_parallel.bind fun name =>
      u2_parallel.bind_pure fun descriptor => some (nameAndType ⟨name, descriptor⟩)
  case h_12 =>
    exact u1_parallel.bind fun kind =>
      u2_parallel.bind_pure fun reference => some (methodHandle kind reference)
  case h_13 => exact u2_parallel.bind_pure fun descriptor => some (methodType descriptor)
  case h_14 =>
    exact u2_parallel.bind fun bootstrap =>
      u2_parallel.bind_pure fun pair => some (dynamic bootstrap pair)
  case h_15 =>
    exact u2_parallel.bind fun bootstrap =>
      u2_parallel.bind_pure fun pair => some (invokeDynamic bootstrap pair)
  case h_16 => exact u2_parallel.bind_pure fun name => some (module name)
  case h_17 => exact u2_parallel.bind_pure fun name => some (package name)
  case h_18 => exact Parallel.fail (.unknownTag tag index offset) rfl

theorem readMagic_parallel : Parallel (readMagic : Reader σ Unit) (readMagic : Reader τ Unit) := by
  refine u4_parallel.bind fun found => ?_
  split
  · exact Parallel.fail (.badMagic found) rfl
  · exact Parallel.pure ()

theorem skipAttributes_parallel :
    Parallel (skipAttributes : Reader σ Unit) (skipAttributes : Reader τ Unit) :=
  u2_parallel.bind fun count =>
    times_parallel
      (u2_parallel.bind fun _ => u4_parallel.bind fun length => skip_parallel length.toNat)
      count.toNat

end JarAudit.ClassFile
