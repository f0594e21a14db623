import Mathlib.Algebra.Group.Nat.Defs
import Mathlib.Data.List.Induction
import JarAudit.ClassFile.Outline

/-!
# Successful runs of a reader

A step that succeeds has moved its cursor over some bytes. `Cursor.Passes` says over which, and the
lemmas named `…_eq_ok` say for each step what it answers for them: `bytes_eq_ok` for a run of bytes,
`u1_eq_ok` to `u8_eq_ok` for numbers, which are passed over in the form that `bigEndianBytes` writes.
They are equivalences, so they serve to read what was written as well as to find out what must have
been written. `times_eq_ok` lifts a lemma about one step to any number of repetitions.
-/

namespace JarAudit.ClassFile

open JarAudit.Text

variable {σ α β : Type}

/-! ### Numbers as bytes -/

/-- The last `width` bytes of a number, the most significant byte first. -/
def bigEndianBytes : (width : Nat) → (value : Nat) → List UInt8
  | 0, _ => []
  | width + 1, value => bigEndianBytes width (value / 256) ++ [UInt8.ofNat (value % 256)]

@[simp] theorem length_bigEndianBytes (width value : Nat) :
    (bigEndianBytes width value).length = width := by
  induction width generalizing value with
  | zero => rfl
  | succ width ih => rw [bigEndianBytes, List.length_append, ih, List.length_singleton]

theorem bigEndian_append_singleton (bytes : List UInt8) (byte : UInt8) :
    bigEndian (bytes ++ [byte]) = bigEndian bytes * 256 + byte.toNat := by
  rw [bigEndian, List.foldl_append]
  rfl

/-- Bytes read back as the number that they were written from, as far as it fits. -/
theorem bigEndian_bigEndianBytes (width value : Nat) :
    bigEndian (bigEndianBytes width value) = value % 256 ^ width := by
  induction width generalizing value with
  | zero => rw [bigEndianBytes, Nat.pow_zero, Nat.mod_one]; rfl
  | succ width ih =>
    have hbyte : (UInt8.ofNat (value % 256)).toNat = value % 256 := by
      rw [UInt8.toNat_ofNat', Nat.mod_mod]
    rw [bigEndianBytes, bigEndian_append_singleton, ih, hbyte, Nat.pow_succ,
      Nat.mul_comm (256 ^ width), Nat.mod_mul]
    omega

/-- A number is written in the bytes that it was read from. -/
theorem bigEndianBytes_bigEndian (bytes : List UInt8) :
    bigEndianBytes bytes.length (bigEndian bytes) = bytes := by
  induction bytes using List.reverseRecOn with
  | nil => rfl
  | append_singleton bytes byte ih =>
    have hbyte := byte.toNat_lt
    rw [List.length_append, List.length_singleton, bigEndianBytes, bigEndian_append_singleton,
      show (bigEndian bytes * 256 + byte.toNat) / 256 = bigEndian bytes by omega,
      show (bigEndian bytes * 256 + byte.toNat) % 256 = byte.toNat by omega, ih,
      UInt8.ofNat_toNat]

theorem bigEndian_lt (bytes : List UInt8) : bigEndian bytes < 256 ^ bytes.length := by
  rw [← bigEndianBytes_bigEndian bytes, bigEndian_bigEndianBytes, length_bigEndianBytes]
  exact Nat.mod_lt _ (Nat.pow_pos (by decide))

/-- The front part of a number, then the rest. -/
theorem bigEndianBytes_add (front back value : Nat) :
    bigEndianBytes (front + back) value =
      bigEndianBytes front (value / 256 ^ back) ++ bigEndianBytes back value := by
  induction back generalizing value with
  | zero => rw [Nat.pow_zero, Nat.div_one, bigEndianBytes, List.append_nil]; rfl
  | succ back ih =>
    rw [← Nat.add_assoc, bigEndianBytes, bigEndianBytes, ih, Nat.div_div_eq_div_mul,
      Nat.pow_succ, Nat.mul_comm 256, List.append_assoc]

/-- Only the last bytes of a number are written. -/
theorem bigEndianBytes_mod (width value : Nat) :
    bigEndianBytes width (value % 256 ^ width) = bigEndianBytes width value := by
  have h := bigEndianBytes_bigEndian (bigEndianBytes width value)
  rwa [length_bigEndianBytes, bigEndian_bigEndianBytes] at h

/-! ### Ways -/

namespace Cursor

/-- The way from one place to another leads over these bytes. -/
def Passes (cursor : Cursor) (bytes : List UInt8) (next : Cursor) : Prop :=
  cursor.rest = bytes ++ next.rest ∧ next.position = cursor.position + bytes.length

variable {cursor middle next : Cursor} {front back : List UInt8}

@[simp] theorem passes_nil : cursor.Passes [] next ↔ next = cursor := by
  constructor
  · rintro ⟨hrest, hposition⟩
    cases cursor; cases next
    simp_all
  · rintro rfl
    exact ⟨rfl, rfl⟩

/-- A way over two runs of bytes has a place between them. -/
theorem passes_append :
    cursor.Passes (front ++ back) next ↔
      ∃ middle, cursor.Passes front middle ∧ middle.Passes back next := by
  constructor
  · rintro ⟨hrest, hposition⟩
    refine ⟨⟨cursor.position + front.length, back ++ next.rest⟩, ⟨?_, rfl⟩, rfl, ?_⟩
    · rw [hrest, List.append_assoc]
    · rw [hposition, List.length_append, Nat.add_assoc]
  · rintro ⟨middle, ⟨hfront, hmiddle⟩, hback, hnext⟩
    refine ⟨?_, ?_⟩
    · rw [hfront, hback, List.append_assoc]
    · rw [hnext, hmiddle, List.length_append, Nat.add_assoc]

theorem Passes.append (hfront : cursor.Passes front middle) (hback : middle.Passes back next) :
    cursor.Passes (front ++ back) next :=
  passes_append.mpr ⟨middle, hfront, hback⟩

end Cursor

/-! ### Steps -/

namespace Reader

variable {cursor next : Cursor} {record after : σ}

/-- A sequence runs its second step if the first one succeeds. -/
theorem bind_run (m : Reader σ α) (f : α → Reader σ β) (s : Cursor × σ) :
    (m >>= f) s = match m s with
      | .ok a t => f a t
      | .error fault t => .error fault t := by
  change EStateM.bind m f s = _
  rw [EStateM.bind]
  cases m s <;> rfl

/-- Behind a step that succeeds the next one runs. -/
theorem bind_of_eq_ok {m : Reader σ α} {f : α → Reader σ β} {s s' : Cursor × σ} {a : α}
    (h : m s = .ok a s') : (m >>= f) s = f a s' := by
  rw [bind_run, h]

/-- Behind a step that fails nothing runs. -/
theorem bind_of_eq_error {m : Reader σ α} {f : α → Reader σ β} {s s' : Cursor × σ} {fault : Fault}
    (h : m s = .error fault s') : (m >>= f) s = .error fault s' := by
  rw [bind_run, h]

theorem bind_note_run {g : σ → σ} {f : Unit → Reader σ β} {cursor : Cursor} {record : σ} :
    (note g >>= f) (cursor, record) = f () (cursor, g record) := rfl

/-- Two steps in sequence succeed when each does. -/
theorem bind_eq_ok {m : Reader σ α} {f : α → Reader σ β} {s s' : Cursor × σ} {b : β} :
    (m >>= f) s = .ok b s' ↔ ∃ a t, m s = .ok a t ∧ f a t = .ok b s' := by
  rw [bind_run]
  constructor
  · intro h
    cases hm : m s with
    | ok a t => rw [hm] at h; exact ⟨a, t, rfl, h⟩
    | error fault t => rw [hm] at h; cases h
  · rintro ⟨a, t, hm, hf⟩
    rw [hm]
    exact hf

@[simp] theorem pure_eq_ok {a b : α} {s s' : Cursor × σ} :
    (pure a : Reader σ α) s = .ok b s' ↔ a = b ∧ s = s' := by
  change EStateM.Result.ok a s = .ok b s' ↔ _
  rw [EStateM.Result.ok.injEq]

/-- What a step answers may be changed on the way out. -/
theorem bind_pure_eq_ok {m : Reader σ α} {g : α → β} {s s' : Cursor × σ} {b : β} :
    (m >>= fun a => pure (g a)) s = .ok b s' ↔ ∃ a, m s = .ok a s' ∧ g a = b := by
  rw [bind_eq_ok]
  constructor
  · rintro ⟨a, t, hm, hpure⟩
    obtain ⟨rfl, rfl⟩ := pure_eq_ok.mp hpure
    exact ⟨a, hm, rfl⟩
  · rintro ⟨a, hm, rfl⟩
    exact ⟨a, s', hm, pure_eq_ok.mpr ⟨rfl, rfl⟩⟩

@[simp] theorem fail_ne_ok {fault : Fault} {a : α} {s s' : Cursor × σ} :
    (fail fault : Reader σ α) s ≠ .ok a s' := nofun

theorem position_eq_ok {offset : Nat} {s s' : Cursor × σ} :
    (position : Reader σ Nat) s = .ok offset s' ↔ s.1.position = offset ∧ s = s' := by
  rw [position, EStateM.Result.ok.injEq]

theorem note_eq_ok {f : σ → σ} {u : Unit} :
    note f (cursor, record) = .ok u (next, after) ↔ next = cursor ∧ after = f record := by
  rw [note, EStateM.Result.ok.injEq, Prod.mk.injEq]
  simp only [true_and, eq_comm]

/-- A run of bytes is answered as it is passed over. -/
theorem bytes_eq_ok {count : Nat} {out : List UInt8} :
    bytes count (cursor, record) = .ok out (next, after) ↔
      out.length = count ∧ cursor.Passes out next ∧ after = record := by
  obtain ⟨position, rest⟩ := cursor
  obtain ⟨nextPosition, nextRest⟩ := next
  simp only [bytes, hasAtLeast_iff, Cursor.Passes]
  split
  · rename_i h
    simp only [EStateM.Result.ok.injEq, Prod.mk.injEq, Cursor.mk.injEq]
    constructor
    · rintro ⟨rfl, ⟨rfl, rfl⟩, rfl⟩
      have hlength : (rest.take count).length = count := by rw [List.length_take]; omega
      exact ⟨hlength, ⟨(List.take_append_drop count rest).symm, by rw [hlength]⟩, rfl⟩
    · rintro ⟨rfl, ⟨rfl, rfl⟩, rfl⟩
      exact ⟨List.take_left, ⟨rfl, List.drop_left⟩, rfl⟩
  · rename_i h
    constructor
    · intro hfalse; cases hfalse
    · rintro ⟨rfl, ⟨rfl, rfl⟩, rfl⟩
      rw [List.length_append] at h
      omega

/-- To pass over bytes is to read them and to forget them. -/
theorem skip_eq_bytes (count : Nat) :
    (skip count : Reader σ Unit) = bytes count >>= fun _ => pure () := by
  funext s
  rw [bind_run, skip, bytes]
  split <;> rfl

theorem skip_eq_ok {count : Nat} {u : Unit} :
    skip count (cursor, record) = .ok u (next, after) ↔
      ∃ out : List UInt8, out.length = count ∧ cursor.Passes out next ∧ after = record := by
  rw [skip_eq_bytes, bind_pure_eq_ok]
  simp only [bytes_eq_ok, and_true]

/-- A number of `width` bytes is answered as its bytes are passed over, for any type of numbers that
has exactly those of this width. -/
theorem number_eq_ok {width : Nat} {ofNat : Nat → α} {toNat : α → Nat} {value : α}
    (hlt : ∀ a, toNat a < 256 ^ width) (hofNat : ∀ n < 256 ^ width, toNat (ofNat n) = n)
    (htoNat : ∀ a, ofNat (toNat a) = a) :
    (do return ofNat (bigEndian (← bytes width)) : Reader σ α) (cursor, record) =
        .ok value (next, after) ↔
      cursor.Passes (bigEndianBytes width (toNat value)) next ∧ after = record := by
  rw [bind_eq_ok]
  constructor
  · rintro ⟨out, ⟨middle, _⟩, hbytes, hpure⟩
    obtain ⟨hlength, hpasses, rfl⟩ := bytes_eq_ok.mp hbytes
    obtain ⟨rfl, hstate⟩ := pure_eq_ok.mp hpure
    obtain ⟨rfl, rfl⟩ := Prod.mk.inj hstate
    have hout := bigEndian_lt out
    rw [hlength] at hout
    rw [hofNat _ hout, ← hlength, bigEndianBytes_bigEndian]
    exact ⟨hpasses, rfl⟩
  · rintro ⟨hpasses, rfl⟩
    refine ⟨_, (next, after), bytes_eq_ok.mpr ⟨length_bigEndianBytes _ _, hpasses, rfl⟩, ?_⟩
    rw [pure_eq_ok, bigEndian_bigEndianBytes, Nat.mod_eq_of_lt (hlt value), htoNat]
    exact ⟨rfl, rfl⟩

theorem u1_eq_ok {value : UInt8} :
    u1 (cursor, record) = .ok value (next, after) ↔ cursor.Passes [value] next ∧ after = record := by
  have hbytes : bigEndianBytes 1 value.toNat = [value] := by
    rw [bigEndianBytes, bigEndianBytes, List.nil_append, Nat.mod_eq_of_lt value.toNat_lt,
      UInt8.ofNat_toNat]
  rw [← hbytes]
  exact number_eq_ok UInt8.toNat_lt (fun _ => UInt8.toNat_ofNat_of_lt') fun _ => UInt8.ofNat_toNat

theorem u2_eq_ok {value : UInt16} :
    u2 (cursor, record) = .ok value (next, after) ↔
      cursor.Passes (bigEndianBytes 2 value.toNat) next ∧ after = record :=
  number_eq_ok UInt16.toNat_lt (fun _ => UInt16.toNat_ofNat_of_lt') fun _ => UInt16.ofNat_toNat

theorem u4_eq_ok {value : UInt32} :
    u4 (cursor, record) = .ok value (next, after) ↔
      cursor.Passes (bigEndianBytes 4 value.toNat) next ∧ after = record :=
  number_eq_ok UInt32.toNat_lt (fun _ => UInt32.toNat_ofNat_of_lt') fun _ => UInt32.ofNat_toNat

theorem i4_eq_ok {value : Int32} :
    i4 (cursor, record) = .ok value (next, after) ↔
      cursor.Passes (bigEndianBytes 4 value.toUInt32.toNat) next ∧ after = record := by
  rw [i4, bind_eq_ok]
  constructor
  · rintro ⟨bits, t, hread, hpure⟩
    obtain ⟨rfl, rfl⟩ := pure_eq_ok.mp hpure
    exact u4_eq_ok.mp hread
  · intro h
    exact ⟨value.toUInt32, (next, after), u4_eq_ok.mpr h, pure_eq_ok.mpr ⟨rfl, rfl⟩⟩

/-- The two halves of a number of eight bytes are its quotient and its remainder. -/
theorem halves_eq_iff (high low : UInt32) (value : UInt64) :
    (high.toUInt64 <<< 32) ||| low.toUInt64 = value ↔
      high.toNat = value.toNat / 256 ^ 4 ∧ low.toNat = value.toNat % 256 ^ 4 := by
  have hhigh := high.toNat_lt
  have hlow := low.toNat_lt
  have hvalue : ((high.toUInt64 <<< 32) ||| low.toUInt64).toNat =
      high.toNat * 256 ^ 4 + low.toNat := by
    have hshift : (high.toUInt64 <<< 32).toNat = 2 ^ 32 * high.toNat := by
      have hamount : UInt64.toNat 32 % 64 = 32 := rfl
      rw [UInt64.toNat_shiftLeft, UInt32.toNat_toUInt64, Nat.shiftLeft_eq, hamount, Nat.mul_comm]
      exact Nat.mod_eq_of_lt (by omega)
    rw [UInt64.toNat_or, hshift, UInt32.toNat_toUInt64, ← Nat.two_pow_add_eq_or_of_lt hlow]
    omega
  rw [← UInt64.toNat_inj, hvalue]
  omega

theorem u8_eq_ok {value : UInt64} :
    u8 (cursor, record) = .ok value (next, after) ↔
      cursor.Passes (bigEndianBytes 8 value.toNat) next ∧ after = record := by
  have hvalue := value.toNat_lt
  have hbytes : bigEndianBytes 8 value.toNat = bigEndianBytes 4 (value.toNat / 256 ^ 4) ++
      bigEndianBytes 4 (value.toNat % 256 ^ 4) := by
    rw [bigEndianBytes_mod]
    exact bigEndianBytes_add 4 4 value.toNat
  rw [u8, hbytes, Cursor.passes_append]
  simp only [bind_eq_ok, pure_eq_ok]
  constructor
  · rintro ⟨high, ⟨middle, _⟩, hhigh, low, ⟨last, _⟩, hlow, heq, hstate⟩
    obtain ⟨rfl, rfl⟩ := Prod.mk.inj hstate
    obtain ⟨hfront, rfl⟩ := u4_eq_ok.mp hhigh
    obtain ⟨hback, rfl⟩ := u4_eq_ok.mp hlow
    obtain ⟨hquotient, hremainder⟩ := (halves_eq_iff high low value).mp heq
    rw [← hquotient, ← hremainder]
    exact ⟨⟨middle, hfront, hback⟩, rfl⟩
  · rintro ⟨⟨middle, hfront, hback⟩, rfl⟩
    have hhigh : (UInt32.ofNat (value.toNat / 256 ^ 4)).toNat = value.toNat / 256 ^ 4 :=
      UInt32.toNat_ofNat_of_lt' (by rw [UInt32.size]; omega)
    have hlow : (UInt32.ofNat (value.toNat % 256 ^ 4)).toNat = value.toNat % 256 ^ 4 :=
      UInt32.toNat_ofNat_of_lt' (by rw [UInt32.size]; omega)
    rw [← hhigh] at hfront
    rw [← hlow] at hback
    exact ⟨_, _, u4_eq_ok.mpr ⟨hfront, rfl⟩, _, _, u4_eq_ok.mpr ⟨hback, rfl⟩,
      (halves_eq_iff _ _ value).mpr ⟨hhigh, hlow⟩, rfl⟩

/-- A step that answers what it passes over and leaves the record alone can be taken off the front of
a sequence. -/
theorem bind_number_eq_ok {m : Reader σ α} {write : α → List UInt8}
    (hm : ∀ {next : Cursor} {after : σ} {a : α},
      m (cursor, record) = .ok a (next, after) ↔ cursor.Passes (write a) next ∧ after = record)
    {f : α → Reader σ β} {b : β} :
    (m >>= f) (cursor, record) = .ok b (next, after) ↔
      ∃ a middle, cursor.Passes (write a) middle ∧ f a (middle, record) = .ok b (next, after) := by
  rw [bind_eq_ok]
  constructor
  · rintro ⟨a, ⟨middle, _⟩, hread, hrest⟩
    obtain ⟨hpasses, rfl⟩ := hm.mp hread
    exact ⟨a, middle, hpasses, hrest⟩
  · rintro ⟨a, middle, hpasses, hrest⟩
    exact ⟨a, (middle, record), hm.mpr ⟨hpasses, rfl⟩, hrest⟩

/-- What such a step answers may be changed on the way out. -/
theorem map_number_eq_ok {m : Reader σ α} {write : α → List UInt8}
    (hm : ∀ {next : Cursor} {after : σ} {a : α},
      m (cursor, record) = .ok a (next, after) ↔ cursor.Passes (write a) next ∧ after = record)
    {g : α → β} {b : β} :
    (m >>= fun a => pure (g a)) (cursor, record) = .ok b (next, after) ↔
      ∃ a, cursor.Passes (write a) next ∧ g a = b ∧ after = record := by
  rw [bind_pure_eq_ok]
  refine exists_congr fun a => ?_
  rw [hm, and_assoc, and_comm (a := after = record)]

/-- A note is taken at once. -/
theorem bind_note_eq_ok {f : σ → σ} {m : Reader σ β} {b : β} {s' : Cursor × σ} :
    (note f >>= fun _ => m) (cursor, record) = .ok b s' ↔ m (cursor, f record) = .ok b s' :=
  Iff.rfl

/-- A text is written as its length and its bytes. -/
theorem utf8_eq_ok {text : Option String} :
    utf8 (cursor, record) = .ok text (next, after) ↔
      ∃ payload : List UInt8, payload.length < 2 ^ 16 ∧
        cursor.Passes (bigEndianBytes 2 payload.length ++ payload) next ∧
        (ModifiedUtf8.decode payload).toOption = text ∧ after = record := by
  rw [utf8, bind_number_eq_ok u2_eq_ok]
  constructor
  · rintro ⟨length, middle, hlength, hread⟩
    obtain ⟨payload, hbytes, rfl⟩ := bind_pure_eq_ok.mp hread
    obtain ⟨hpayload, hpasses, rfl⟩ := bytes_eq_ok.mp hbytes
    rw [← hpayload] at hlength
    exact ⟨payload, hpayload ▸ length.toNat_lt,
      Cursor.passes_append.mpr ⟨middle, hlength, hpasses⟩, rfl, rfl⟩
  · rintro ⟨payload, hshort, hpasses, rfl, rfl⟩
    obtain ⟨middle, hlength, hpayload⟩ := Cursor.passes_append.mp hpasses
    have htoNat : (UInt16.ofNat payload.length).toNat = payload.length :=
      UInt16.toNat_ofNat_of_lt' hshort
    refine ⟨UInt16.ofNat payload.length, middle, by rwa [htoNat], ?_⟩
    exact bind_pure_eq_ok.mpr ⟨payload, bytes_eq_ok.mpr ⟨htoNat.symm, hpayload, rfl⟩, rfl⟩

/-- A step that passes over the written form of some item and puts the item into the record does so
for a list of items when it is repeated. -/
theorem times_eq_ok {γ : Type} {write : γ → List UInt8} {keep : γ → σ → σ} {step : Reader σ Unit}
    (hstep : ∀ {cursor next : Cursor} {record after : σ} {u : Unit},
      step (cursor, record) = .ok u (next, after) ↔
        ∃ item, cursor.Passes (write item) next ∧ after = keep item record)
    {count : Nat} {u : Unit} :
    times count step (cursor, record) = .ok u (next, after) ↔
      ∃ items : List γ, items.length = count ∧ cursor.Passes (items.flatMap write) next ∧
        after = items.foldl (fun record item => keep item record) record := by
  induction count generalizing cursor record with
  | zero =>
    rw [times, pure_eq_ok, Prod.mk.injEq]
    constructor
    · rintro ⟨-, rfl, rfl⟩
      exact ⟨[], rfl, Cursor.passes_nil.mpr rfl, rfl⟩
    · rintro ⟨items, hlength, hpasses, rfl⟩
      obtain rfl := List.length_eq_zero_iff.mp hlength
      obtain rfl := Cursor.passes_nil.mp hpasses
      exact ⟨rfl, rfl, rfl⟩
  | succ count ih =>
    rw [times, bind_eq_ok]
    constructor
    · rintro ⟨_, ⟨middle, between⟩, hfirst, hrest⟩
      obtain ⟨item, hitem, rfl⟩ := hstep.mp hfirst
      obtain ⟨items, hlength, hpasses, rfl⟩ := ih.mp hrest
      refine ⟨item :: items, by rw [List.length_cons, hlength], ?_, rfl⟩
      rw [List.flatMap_cons]
      exact Cursor.passes_append.mpr ⟨middle, hitem, hpasses⟩
    · rintro ⟨items, hlength, hpasses, rfl⟩
      obtain ⟨item, items, rfl⟩ := List.exists_cons_of_length_eq_add_one hlength
      rw [List.flatMap_cons] at hpasses
      obtain ⟨middle, hitem, hitems⟩ := Cursor.passes_append.mp hpasses
      exact ⟨(), (middle, keep item record), hstep.mpr ⟨item, hitem, rfl⟩,
        ih.mpr ⟨items, by simpa using hlength, hitems, rfl⟩⟩

end Reader

end JarAudit.ClassFile
