import JarAudit.Proofs.ClassFile.Parallel

/-!
# Reading on when more bytes follow

The same step is run twice, the second time with more bytes behind those of the first run. A run
that succeeded or met a structural fault is repeated to the letter; a run that met the end of its
bytes is taken up where it stopped, and then only adds to the record. `Resumes` says this of two
runs and `Steady` of a step.

How records may grow is a `Growth`. It differs from one kind of record to another, and whether a note
respects it may depend on what the record held before, so a steady step comes with a condition on
the record before it and with what it leaves behind when it succeeds.
-/

namespace JarAudit.ClassFile

variable {σ α β : Type}

namespace Cursor

/-- The same place, with more bytes at the end. -/
def extend (cursor : Cursor) (more : List UInt8) : Cursor := ⟨cursor.position, cursor.rest ++ more⟩

/-- How many bytes there are, before and behind the place. -/
def length (cursor : Cursor) : Nat := cursor.position + cursor.remaining

@[simp] theorem extend_position (cursor : Cursor) (more : List UInt8) :
    (cursor.extend more).position = cursor.position := rfl

@[simp] theorem extend_rest (cursor : Cursor) (more : List UInt8) :
    (cursor.extend more).rest = cursor.rest ++ more := rfl

theorem front_append (image more : List UInt8) :
    front (image ++ more) = (front image).extend more := rfl

theorem length_front (image : List UInt8) : (front image).length = image.length :=
  Nat.zero_add _

theorem position_le_length (cursor : Cursor) : cursor.position ≤ cursor.length :=
  Nat.le_add_right _ _

end Cursor

/-! ### Two runs -/

/-- How a record may change while more is read into it. -/
structure Growth (σ : Type) where
  le : σ → σ → Prop
  refl : ∀ record, le record record
  trans : ∀ {first second third}, le first second → le second third → le first third

/-- A record may change in any way. -/
def Growth.free : Growth σ := ⟨fun _ _ => True, fun _ => trivial, fun _ _ => trivial⟩

open Reader

/-- What the run of a step tells of its run with more bytes. -/
inductive Resumes (growth : Growth σ) (more : List UInt8) :
    EStateM.Result Fault (Cursor × σ) α → EStateM.Result Fault (Cursor × σ) α → Prop
  /-- A success is repeated. -/
  | ok (a : α) (next : Cursor) (record : σ) :
    Resumes growth more (.ok a (next, record)) (.ok a (next.extend more, record))
  /-- A structural fault is repeated. -/
  | structural (fault : Fault) (next : Cursor) (record : σ) (h : fault.isStructural = true) :
    Resumes growth more (.error fault (next, record)) (.error fault (next.extend more, record))
  /-- Bytes were missing, and are missing still. -/
  | short (needed : Nat) (next : Cursor) (record : σ)
    (h : next.remaining + more.length < needed) :
    Resumes growth more (.error (.truncated next.position needed next.remaining) (next, record))
      (.error (.truncated next.position needed (next.remaining + more.length))
        (next.extend more, record))
  /-- Bytes were missing, and are there now. -/
  | resumed (needed : Nat) (next : Cursor) (record : σ)
    (longer : EStateM.Result Fault (Cursor × σ) α) (h : next.remaining < needed)
    (henough : needed ≤ next.remaining + more.length)
    (hgrowth : growth.le record (final longer).2) :
    Resumes growth more (.error (.truncated next.position needed next.remaining) (next, record))
      longer

/-- A step that carries on when more bytes follow. `P` is asked of the record before it; `Q` is left
behind when it succeeds. -/
structure Steady (growth : Growth σ) (P Q : σ → Prop) (m : Reader σ α) : Prop where
  resumes : ∀ more cursor record, P record →
    Resumes growth more (m (cursor, record)) (m (cursor.extend more, record))
  length : ∀ s, (final (m s)).1.length = s.1.length
  grows : ∀ cursor record, P record → growth.le record (final (m (cursor, record))).2
  leaves : ∀ {cursor record a next result}, P record →
    m (cursor, record) = .ok a (next, result) → Q result

namespace Steady

variable {growth : Growth σ} {P Q R : σ → Prop} {m : Reader σ α} {f : α → Reader σ β}

theorem pure (a : α) : Steady growth P P (pure a : Reader σ α) where
  resumes _ cursor record _ := .ok a cursor record
  length _ := rfl
  grows _ record _ := growth.refl record
  leaves h hrun := by
    obtain ⟨-, hstate⟩ := pure_eq_ok.mp hrun
    obtain ⟨-, rfl⟩ := Prod.mk.inj hstate
    exact h

/-- A second step carries on from what the first one leaves. -/
theorem bind (hm : Steady growth P Q m) (hf : ∀ a, Steady growth Q R (f a)) :
    Steady growth P R (m >>= f) where
  resumes more cursor record h := by
    have hruns := hm.resumes more cursor record h
    rw [bind_run, bind_run]
    generalize hshort : m (cursor, record) = short at hruns ⊢
    generalize hlong : m (cursor.extend more, record) = long at hruns ⊢
    cases hruns with
    | ok a next kept => exact (hf a).resumes more next kept (hm.leaves h hshort)
    | structural fault next kept hfault => exact .structural fault next kept hfault
    | short needed next kept hneeded => exact .short needed next kept hneeded
    | resumed needed next kept _ hneeded henough hgrowth =>
      -- The first step was taken up again, and the second one may have followed for the first time.
      refine .resumed needed next kept _ hneeded henough ?_
      cases long with
      | ok a s => exact growth.trans hgrowth ((hf a).grows s.1 s.2 (hm.leaves h hlong))
      | error fault s => exact hgrowth
  length s := by
    have hlength := hm.length s
    rw [bind_run]
    cases hrun : m s with
    | ok a t =>
      rw [hrun] at hlength
      exact ((hf a).length t).trans hlength
    | error fault t =>
      rw [hrun] at hlength
      exact hlength
  grows cursor record h := by
    have hgrows := hm.grows cursor record h
    rw [bind_run]
    cases hrun : m (cursor, record) with
    | ok a t =>
      rw [hrun] at hgrows
      exact growth.trans hgrows ((hf a).grows t.1 t.2 (hm.leaves h hrun))
    | error fault t =>
      rw [hrun] at hgrows
      exact hgrows
  leaves h hrun := by
    obtain ⟨a, ⟨middle, kept⟩, hfirst, hsecond⟩ := bind_eq_ok.mp hrun
    exact (hf a).leaves (hm.leaves h hfirst) hsecond

/-- A note is steady when what it adds is growth. -/
theorem note {g : σ → σ} (hgrows : ∀ record, P record → growth.le record (g record))
    (hleaves : ∀ record, P record → Q (g record)) : Steady growth P Q (note g) where
  resumes _ cursor record _ := .ok () cursor (g record)
  length _ := rfl
  grows _ record h := hgrows record h
  leaves h hrun := by
    obtain ⟨-, rfl⟩ := note_eq_ok.mp hrun
    exact hleaves _ h

theorem position : Steady growth P P (position : Reader σ Nat) where
  resumes _ cursor record _ := .ok cursor.position cursor record
  length _ := rfl
  grows _ record _ := growth.refl record
  leaves h hrun := by
    obtain ⟨-, hstate⟩ := position_eq_ok.mp hrun
    obtain ⟨-, rfl⟩ := Prod.mk.inj hstate
    exact h

theorem fail {fault : Fault} (hfault : fault.isStructural = true) :
    Steady growth P Q (fail fault : Reader σ α) where
  resumes _ cursor record _ := .structural fault cursor record hfault
  length _ := rfl
  grows _ record _ := growth.refl record
  leaves _ hrun := absurd hrun fail_ne_ok

/-- Every fault at the end of the bytes starts here. -/
theorem bytes (count : Nat) : Steady growth P P (bytes count : Reader σ (List UInt8)) where
  resumes more cursor record _ := by
    simp only [Reader.bytes, hasAtLeast_iff, Cursor.remaining, Cursor.extend_rest,
      Cursor.extend_position, List.length_append]
    by_cases hcount : count ≤ cursor.rest.length
    · have hlong : count ≤ cursor.rest.length + more.length := Nat.le_add_right_of_le hcount
      rw [if_pos hcount, if_pos hlong, List.take_append_of_le_length hcount,
        List.drop_append_of_le_length hcount]
      exact .ok _ _ record
    · rw [if_neg hcount]
      by_cases hlong : count ≤ cursor.rest.length + more.length
      · rw [if_pos hlong]
        exact .resumed count cursor record _ (Nat.lt_of_not_le hcount) hlong (growth.refl record)
      · rw [if_neg hlong]
        exact .short count cursor record (Nat.lt_of_not_le hlong)
  length s := by
    simp only [Reader.bytes, hasAtLeast_iff]
    split
    · simp only [final, Cursor.length, Cursor.remaining, List.length_drop]
      omega
    · rfl
  grows cursor record _ := by
    simp only [Reader.bytes]
    split <;> exact growth.refl record
  leaves h hrun := by
    obtain ⟨-, -, rfl⟩ := bytes_eq_ok.mp hrun
    exact h

/-- A step that leaves the record alone is steady under every condition. -/
theorem of_parallel {m' : Reader σ α} (h : Parallel m m') : Steady growth P P m := by
  induction h with
  | pure a => exact pure a
  | bind _ _ ihm ihf => exact ihm.bind ihf
  | position => exact position
  | bytes count => exact bytes count
  | fail fault hfault => exact fail hfault

/-- A step may be asked for under a stronger condition and leave a weaker one. -/
theorem imp {P' Q' : σ → Prop} (hm : Steady growth P Q m) (hP : ∀ record, P' record → P record)
    (hQ : ∀ record, Q record → Q' record) : Steady growth P' Q' m where
  resumes more cursor record h := hm.resumes more cursor record (hP record h)
  length := hm.length
  grows cursor record h := hm.grows cursor record (hP record h)
  leaves h hrun := hQ _ (hm.leaves (hP _ h) hrun)

/-- Growth may be judged more loosely. -/
theorem coarsen {loose : Growth σ} (hm : Steady growth P Q m)
    (hle : ∀ {before after}, growth.le before after → loose.le before after) :
    Steady loose P Q m where
  resumes more cursor record h := by
    have hruns := hm.resumes more cursor record h
    generalize m (cursor, record) = short at hruns ⊢
    generalize m (cursor.extend more, record) = long at hruns ⊢
    cases hruns with
    | ok a next kept => exact .ok a next kept
    | structural fault next kept hfault => exact .structural fault next kept hfault
    | short needed next kept hneeded => exact .short needed next kept hneeded
    | resumed needed next kept _ hneeded henough hgrowth =>
      exact .resumed needed next kept _ hneeded henough (hle hgrowth)
  length := hm.length
  grows cursor record h := hle (hm.grows cursor record h)
  leaves h hrun := hm.leaves h hrun

/-- A step that keeps up its own condition can be repeated. -/
theorem times {m : Reader σ Unit} (hm : Steady growth P P m) (count : Nat) :
    Steady growth P P (times count m) := by
  induction count with
  | zero => exact pure ()
  | succ count ih => exact hm.bind fun _ => ih

/-- A text that cannot be decoded stops no step. -/
theorem run_ne_malformed {cursor : Cursor} {record : σ} (hm : Steady growth P Q m) (h : P record)
    (malformed : Text.ModifiedUtf8.Malformed) (s : Cursor × σ) :
    m (cursor, record) ≠ .error (.malformedString malformed) s := by
  intro hrun
  have hruns := hm.resumes [] cursor record h
  rw [hrun] at hruns
  generalize m (cursor.extend [], record) = long at hruns
  cases hruns with
  | structural _ _ _ hfault => cases hfault

/-! ### Whole images -/

variable {init : σ} {image : List UInt8} {a : α} {next : Cursor} {record : σ}

/-- What was read is read again when more bytes follow. -/
theorem run_append_of_ok (hm : Steady growth P Q m) (hinit : P init)
    (hrun : m (Cursor.front image, init) = .ok a (next, record)) (more : List UInt8) :
    m (Cursor.front (image ++ more), init) = .ok a (next.extend more, record) := by
  have hruns := hm.resumes more (Cursor.front image) init hinit
  rw [← Cursor.front_append, hrun] at hruns
  generalize hlong : m (Cursor.front (image ++ more), init) = long at hruns ⊢
  cases hruns with
  | ok => rfl

/-- More bytes do not mend a structural fault. -/
theorem run_append_of_structural {fault : Fault} (hm : Steady growth P Q m) (hinit : P init)
    (hrun : m (Cursor.front image, init) = .error fault (next, record))
    (hfault : fault.isStructural = true) (more : List UInt8) :
    m (Cursor.front (image ++ more), init) = .error fault (next.extend more, record) := by
  have hruns := hm.resumes more (Cursor.front image) init hinit
  rw [← Cursor.front_append, hrun] at hruns
  generalize hlong : m (Cursor.front (image ++ more), init) = long at hruns ⊢
  cases hruns with
  | structural => rfl
  | short needed => cases hfault
  | resumed needed => cases hfault

/-- A run that met the end of its bytes tells exactly how many there were. It stops at the same place
until the bytes asked for are there, and whatever follows only adds to the record. -/
theorem run_append_of_truncated {offset needed available : Nat} (hm : Steady growth P Q m)
    (hinit : P init)
    (hrun : m (Cursor.front image, init) =
      .error (.truncated offset needed available) (next, record)) :
    offset + available = image.length ∧ available < needed ∧ ∀ more : List UInt8,
      (more.length < needed - available →
        m (Cursor.front (image ++ more), init) =
          .error (.truncated offset needed (available + more.length))
            (next.extend more, record)) ∧
      growth.le record (final (m (Cursor.front (image ++ more), init))).2 := by
  have hlength := hm.length (Cursor.front image, init)
  rw [hrun, Cursor.length_front] at hlength
  have hruns := fun more => hm.resumes more (Cursor.front image) init hinit
  simp only [← Cursor.front_append, hrun] at hruns
  -- Running once more with nothing added tells where the run stopped.
  have hstop : offset = next.position ∧ available = next.remaining ∧ available < needed := by
    have hsame := hruns []
    generalize m (Cursor.front (image ++ []), init) = same at hsame
    cases hsame with
    | structural _ _ _ hfault => cases hfault
    | short _ _ _ hneeded => exact ⟨rfl, rfl, by rwa [List.length_nil, Nat.add_zero] at hneeded⟩
    | resumed _ _ _ _ hneeded _ _ => exact ⟨rfl, rfl, hneeded⟩
  refine ⟨?_, hstop.2.2, fun more => ?_⟩
  · rw [hstop.1, hstop.2.1]
    exact hlength
  have hlong := hruns more
  generalize m (Cursor.front (image ++ more), init) = long at hlong ⊢
  cases hlong with
  | structural _ _ _ hfault => cases hfault
  | short => exact ⟨fun _ => rfl, growth.refl record⟩
  | resumed _ _ _ _ _ henough hgrowth => exact ⟨fun hmore => by omega, hgrowth⟩

/-- A run over fewer bytes than a successful run passed over meets their end. -/
theorem run_take_of_ok {count : Nat} (hm : Steady growth P Q m) (hinit : P init)
    (hrun : m (Cursor.front image, init) = .ok a (next, record)) (hcount : count < next.position) :
    ∃ offset needed available s,
      m (Cursor.front (image.take count), init) = .error (.truncated offset needed available) s := by
  have hruns := hm.resumes (image.drop count) (Cursor.front (image.take count)) init hinit
  have hlength := hm.length (Cursor.front (image.take count), init)
  rw [← Cursor.front_append, List.take_append_drop, hrun] at hruns
  rw [Cursor.length_front] at hlength
  generalize hshort : m (Cursor.front (image.take count), init) = short at hruns hlength ⊢
  cases hruns with
  | ok a middle =>
    -- A success would have stopped where the whole run did, which is behind the last byte.
    have hmiddle := middle.position_le_length
    have htake : (image.take count).length ≤ count := List.length_take_le count image
    have hwhole : middle.length = (image.take count).length := hlength
    rw [Cursor.extend_position] at hcount
    omega
  | resumed needed middle => exact ⟨_, _, _, _, rfl⟩

end Steady

end JarAudit.ClassFile
