import JarAudit.Proofs.ClassFile.History

/-!
# The content of a text

What a text of a class image says is kept in its slot of the pool and nowhere else. `OpensText` says
that an image comes to a text among its constants; the bytes of the text may then be replaced by as
many others, and the two images are parsed alike up to that one slot (`parse_replace`).

Up to the end of the constants this holds because both readings go over the same items but one
(`readOpening_eq`). What follows the constants is read without a look at the pool: `Ignores` says so
of a step, as a change of the record that can be made before the step or after it.
-/

namespace JarAudit.ClassFile

open JarAudit.Text Reader

variable {σ α β : Type}

namespace Reader

/-! ### Changes that a step ignores -/

/-- A run with its record changed at the end. -/
def mapRecord (change : σ → σ) :
    EStateM.Result Fault (Cursor × σ) α → EStateM.Result Fault (Cursor × σ) α
  | .ok a s => .ok a (s.1, change s.2)
  | .error fault s => .error fault (s.1, change s.2)

/-- A step does not see a change of the record, and does not undo it. -/
def Ignores (change : σ → σ) (m : Reader σ α) : Prop :=
  ∀ cursor record, m (cursor, change record) = mapRecord change (m (cursor, record))

namespace Ignores

variable {change : σ → σ} {m : Reader σ α} {f : α → Reader σ β}

theorem pure (a : α) : Ignores change (pure a : Reader σ α) := fun _ _ => rfl

theorem bind (hm : Ignores change m) (hf : ∀ a, Ignores change (f a)) :
    Ignores change (m >>= f) := by
  intro cursor record
  rw [bind_run, bind_run, hm]
  cases m (cursor, record) with
  | ok a s => exact hf a s.1 s.2
  | error fault s => rfl

/-- A step that leaves the record alone ignores every change of it. -/
theorem of_parallel (h : Parallel m m) : Ignores change m := by
  intro cursor record
  rcases h.run_cases cursor record (change record) with
    ⟨a, next, hrun, hchanged⟩ | ⟨fault, next, hrun, hchanged⟩ <;>
  · rw [hrun, hchanged]
    rfl

theorem note {g : σ → σ} (h : ∀ record, g (change record) = change (g record)) :
    Ignores change (note g) :=
  fun cursor record => congrArg (fun kept => EStateM.Result.ok () (cursor, kept)) (h record)

theorem times {m : Reader σ Unit} (hm : Ignores change m) (count : Nat) :
    Ignores change (times count m) := by
  induction count with
  | zero => exact pure ()
  | succ count ih => exact hm.bind fun _ => ih

theorem readMembers {keep : Member → σ → σ}
    (h : ∀ member record, keep member (change record) = change (keep member record)) :
    Ignores change (readMembers keep) := by
  have hu2 : Ignores change (u2 : Reader σ UInt16) := of_parallel u2_parallel
  refine hu2.bind fun count => times ?_ count.toNat
  refine hu2.bind fun flags => hu2.bind fun name => hu2.bind fun descriptor => ?_
  refine (of_parallel skipAttributes_parallel).bind fun _ => ?_
  exact note fun record => h ⟨flags, name, descriptor⟩ record

end Ignores

end Reader

namespace Outline

/-- What follows the constants is read without regard to them. -/
theorem readBody_ignores (pool : Pool) :
    Ignores (fun outline : Outline => { outline with pool := pool }) readBody := by
  have hu2 : Ignores (fun outline : Outline => { outline with pool := pool }) u2 :=
    .of_parallel u2_parallel
  refine hu2.bind fun flags => .bind (.note fun _ => rfl) fun _ => ?_
  refine hu2.bind fun own => .bind (.note fun _ => rfl) fun _ => ?_
  refine hu2.bind fun parent => .bind (.note fun _ => rfl) fun _ => ?_
  refine hu2.bind fun interfaces => .bind ?_ fun _ => ?_
  · exact .times (hu2.bind fun index => .note fun _ => rfl) interfaces.toNat
  refine .bind (.readMembers fun _ _ => rfl) fun _ => ?_
  refine .bind (.readMembers fun _ _ => rfl) fun _ => ?_
  exact .of_parallel skipAttributes_parallel

/-! ### The opening of an image -/

/-- An outline that was read up to the end of these constants, or as far as they go. -/
def opened (minor major : UInt16) (items : List Item) : Outline where
  valid := true
  minorVersion := minor
  majorVersion := major
  pool := keepPlaced (fun index constant pool => pool.insert index constant)
    (Item.placedFrom 1 items) ∅

theorem get?_pool_opened {items : List Item} (minor major : UInt16)
    (hfits : ∀ p ∈ Item.placedFrom 1 items, p.1 < 2 ^ 16) :
    (opened minor major items).pool.get? = written (Item.placedFrom 1 items) (∅ : Pool).get? :=
  get?_keepPlaced_eq_written ∅ hfits

/-- The opening of an image is read as far as its items are. -/
theorem readOpening_eq {minor major count : UInt16} {cursor start stop last : Cursor}
    {items : List Item} {fault : Option Fault}
    (hpasses : cursor.Passes (Layout.openingBytes minor major count []) start)
    (h : ReadsItems count.toNat 1 start items stop fault last) :
    readOpening (cursor, {}) = endAt fault (last, opened minor major items) := by
  obtain ⟨first, hmagic, h1⟩ := Cursor.passes_append.mp hpasses
  obtain ⟨second, hminor, h2⟩ := Cursor.passes_append.mp h1
  obtain ⟨third, hmajor, h3⟩ := Cursor.passes_append.mp h2
  obtain ⟨fourth, hcount, h4⟩ := Cursor.passes_append.mp h3
  obtain rfl := Cursor.passes_nil.mp h4
  rw [readOpening, bind_of_eq_ok (readMagic_eq_ok (u := ()).mpr ⟨hmagic, rfl⟩), bind_note_run,
    bind_of_eq_ok (u2_eq_ok.mpr ⟨hminor, rfl⟩), bind_note_run,
    bind_of_eq_ok (u2_eq_ok.mpr ⟨hmajor, rfl⟩), bind_note_run,
    bind_of_eq_ok (u2_eq_ok.mpr ⟨hcount, rfl⟩), readConstants_eq_readFrom_one, h.run_eq,
    keepPlaced_pool]
  rfl

/-- An image whose versions and count cannot be read has no constants. -/
theorem passes_or_pool_eq_empty (image : List UInt8) :
    (∃ minor major count start,
      (Cursor.front image).Passes (Layout.openingBytes minor major count []) start) ∨
    ∃ fault last outline, readOpening (Cursor.front image, {}) = endAt (some fault) (last, outline) ∧
      outline.pool = ∅ := by
  rw [readOpening]
  rcases readMagic_parallel.run_cases (Cursor.front image) ({} : Outline) () with
    ⟨_, first, hmagic, -⟩ | ⟨fault, next, hmagic, -⟩
  case inr =>
    rw [bind_of_eq_error hmagic]
    exact .inr ⟨fault, next, {}, rfl, rfl⟩
  rw [bind_of_eq_ok hmagic, bind_note_run]
  rcases u2_parallel.run_cases first ({ valid := true } : Outline) () with
    ⟨minor, second, hminor, -⟩ | ⟨fault, next, hminor, -⟩
  case inr =>
    rw [bind_of_eq_error hminor]
    exact .inr ⟨fault, next, { valid := true }, rfl, rfl⟩
  rw [bind_of_eq_ok hminor, bind_note_run]
  rcases u2_parallel.run_cases second ({ valid := true, minorVersion := minor } : Outline) () with
    ⟨major, third, hmajor, -⟩ | ⟨fault, next, hmajor, -⟩
  case inr =>
    rw [bind_of_eq_error hmajor]
    exact .inr ⟨fault, next, { valid := true, minorVersion := minor }, rfl, rfl⟩
  rw [bind_of_eq_ok hmajor, bind_note_run]
  rcases u2_parallel.run_cases third
    ({ valid := true, minorVersion := minor, majorVersion := major } : Outline) () with
    ⟨count, start, hcount, -⟩ | ⟨fault, next, hcount, -⟩
  case inr =>
    rw [bind_of_eq_error hcount]
    exact .inr
      ⟨fault, next, { valid := true, minorVersion := minor, majorVersion := major }, rfl, rfl⟩
  refine .inl ⟨minor, major, count, start, ?_⟩
  have hnothing : start.Passes [] start := Cursor.passes_nil.mpr rfl
  exact (readMagic_eq_ok.mp hmagic).1.append ((u2_eq_ok.mp hminor).1.append
    ((u2_eq_ok.mp hmajor).1.append ((u2_eq_ok.mp hcount).1.append hnothing)))

/-- When two openings end alike but for the pool, what follows is read alike but for the pool. -/
theorem read_of_readOpening {s s' : Cursor × Outline} {outline : Outline} {pool : Pool}
    {fault : Option Fault} {last : Cursor} (h : readOpening s = endAt fault (last, outline))
    (h' : readOpening s' = endAt fault (last, { outline with pool := pool })) :
    read s' = mapRecord (fun outline => { outline with pool := pool }) (read s) := by
  rw [read, bind_run, bind_run, h, h']
  cases fault with
  | none => exact readBody_ignores pool last outline
  | some fault => rfl

/-- Images whose openings end alike but for the pool are parsed alike but for the pool. -/
theorem parse_of_readOpening {image other : List UInt8} {outline : Outline} {pool : Pool}
    {fault : Option Fault} {last : Cursor}
    (h : readOpening (Cursor.front image, {}) = endAt fault (last, outline))
    (h' : readOpening (Cursor.front other, {}) =
      endAt fault (last, { outline with pool := pool })) :
    parse other =
      ⟨{ (parse image).outline with pool := pool }, (parse image).fault⟩ := by
  rw [parse, parse, read_of_readOpening h h']
  cases read (Cursor.front image, {}) <;> rfl

/-- Behind its opening an image has no constants. -/
theorem pool_parse {image : List UInt8} {outline : Outline} {fault : Option Fault} {last : Cursor}
    (h : readOpening (Cursor.front image, {}) = endAt fault (last, outline)) :
    (parse image).outline.pool = outline.pool := by
  have hsame : readOpening (Cursor.front image, {}) =
      endAt fault (last, { outline with pool := outline.pool }) := h
  rw [parse_of_readOpening h hsame]

end Outline

/-! ### Texts in an image -/

/-- An image with this front comes to a text of `length` bytes at an index of its pool: the opening
mark, the versions and the count of the pool, the constants below the index, and the tag and the
length of the text. The bytes of the text come next. -/
def OpensText (front : List UInt8) (index : UInt16) (length : Nat) : Prop :=
  length < 2 ^ 16 ∧ ∃ (minor major count : UInt16) (items : List Item),
    Item.behind 1 items = index.toNat ∧ index < count ∧
      front = Layout.openingBytes minor major count items ++ ([1] ++ bigEndianBytes 2 length)

/-- Two outlines say the same of a class, but for what stands at one index of the pool. -/
structure Outline.SameBut (index : UInt16) (outline other : Outline) : Prop where
  valid : other.valid = outline.valid
  minorVersion : other.minorVersion = outline.minorVersion
  majorVersion : other.majorVersion = outline.majorVersion
  accessFlags : other.accessFlags = outline.accessFlags
  thisClass : other.thisClass = outline.thisClass
  superClass : other.superClass = outline.superClass
  interfaces : other.interfaceIndices = outline.interfaceIndices
  fields : other.fields = outline.fields
  methods : other.methods = outline.methods
  pool : ∀ place, place ≠ index → other.pool.get? place = outline.pool.get? place

theorem openingBytes_eq_append (minor major count : UInt16) (items : List Item) :
    Layout.openingBytes minor major count items =
      Layout.openingBytes minor major count [] ++ items.flatMap Item.bytes := by
  simp only [Layout.openingBytes, List.flatMap_nil, List.append_nil, List.append_assoc]

/-- Whatever the bytes of a text are, the opening of the image is read over the same items before the
text and behind it, and ends alike. -/
theorem OpensText.readOpening_eq {front : List UInt8} {index : UInt16} {length : Nat}
    (h : OpensText front index length) (back : List UInt8) :
    ∃ minor major before behind fault last, Item.behind 1 before = index.toNat ∧
      ∀ payload (short : payload.length < 2 ^ 16), payload.length = length →
        (∀ p ∈ Item.placedFrom 1 (before ++ .utf8 payload short :: behind), p.1 < 2 ^ 16) ∧
        Outline.readOpening (Cursor.front (front ++ payload ++ back), {}) =
          endAt fault
            (last, Outline.opened minor major (before ++ .utf8 payload short :: behind)) := by
  obtain ⟨-, minor, major, count, before, hindex, hcount, rfl⟩ := h
  -- Behind the text the reading goes on at the same place, whatever the text was.
  obtain ⟨behind, stop, fault, last, hbehind⟩ := exists_readsItems count.toNat (index.toNat + 1)
    ⟨(Layout.openingBytes minor major count before ++ ([1] ++ bigEndianBytes 2 length)).length +
      length, back⟩
  refine ⟨minor, major, before, behind, fault, last, hindex, ?_⟩
  rintro payload short rfl
  have hpasses : (Cursor.front (Layout.openingBytes minor major count before ++
      ([1] ++ bigEndianBytes 2 payload.length) ++ payload ++ back)).Passes
      (Layout.openingBytes minor major count [] ++
        (before ++ [Item.utf8 payload short]).flatMap Item.bytes)
      ⟨(Layout.openingBytes minor major count before ++
        ([1] ++ bigEndianBytes 2 payload.length)).length + payload.length, back⟩ := by
    rw [openingBytes_eq_append minor major count before]
    refine ⟨?_, ?_⟩
    · simp only [Cursor.front, Item.bytes, List.flatMap_append, List.flatMap_singleton,
        List.append_assoc]
    · simp only [Cursor.front, Item.bytes, List.flatMap_append, List.flatMap_singleton,
        List.length_append]
      omega
  obtain ⟨start, hopening, hitems⟩ := Cursor.passes_append.mp hpasses
  have hplaced : ∀ p ∈ Item.placedFrom 1 (before ++ [Item.utf8 payload short]),
      p.1 < count.toNat := by
    intro p hp
    have hp := Item.lt_behind_of_mem_placedFrom hp
    rw [Item.behind_append, hindex] at hp
    exact Nat.lt_of_lt_of_le hp hcount
  have hreads := ReadsItems.append hplaced hitems
    (by rw [Item.behind_append, hindex]; exact hbehind)
  rw [List.append_assoc, List.singleton_append] at hreads
  exact ⟨fun p hp => Nat.lt_trans (hreads.below p hp) count.toNat_lt,
    Outline.readOpening_eq hopening hreads⟩

/-! ### The pool on both sides -/

/-- What two lists of constants write is the same but where they differ. -/
theorem written_replace {before behind : List Item} {start : Nat} {payload replacement : List UInt8}
    {short : payload.length < 2 ^ 16} {short' : replacement.length < 2 ^ 16} {place : UInt16}
    (hplace : Item.behind start before ≠ place.toNat) (map : UInt16 → Option Constant) :
    written (Item.placedFrom start (before ++ .utf8 replacement short' :: behind)) map place =
      written (Item.placedFrom start (before ++ .utf8 payload short :: behind)) map place := by
  have hskip : ∀ (payload : List UInt8) (short : payload.length < 2 ^ 16),
      (Item.placedFrom start (before ++ .utf8 payload short :: behind)).find?
          (fun p => p.1 = place.toNat) =
        ((Item.placedFrom start before).find? fun p => p.1 = place.toNat).or
          ((Item.placedFrom (Item.behind start before + 1) behind).find?
            fun p => p.1 = place.toNat) := by
    intro payload short
    rw [Item.placedFrom_append, List.find?_append, Item.placedFrom,
      List.find?_cons_of_neg (by simpa using hplace)]
    rfl
  rw [written, written, hskip, hskip]

/-- At its own index stands the text that was decoded, and nothing new if it cannot be. -/
theorem written_text {before behind : List Item} {start : Nat} {payload : List UInt8}
    {short : payload.length < 2 ^ 16} {place : UInt16}
    (hplace : Item.behind start before = place.toNat) (map : UInt16 → Option Constant) :
    written (Item.placedFrom start (before ++ .utf8 payload short :: behind)) map place =
      ((ModifiedUtf8.decode payload).toOption.map Constant.utf8).or (map place) := by
  have hbefore : (Item.placedFrom start before).find? (fun p => p.1 = place.toNat) = none := by
    refine List.find?_eq_none.mpr fun p hp => ?_
    have := Item.lt_behind_of_mem_placedFrom hp
    rw [decide_eq_true_eq]
    omega
  rw [written, Item.placedFrom_append, List.find?_append, hbefore, Option.none_or, Item.placedFrom,
    List.find?_cons_of_pos (by simpa using hplace)]
  rfl

/-- The bytes of a text may be replaced by as many others: the image is parsed to the same fault and
the same outline, but for what stands at the index of the text. -/
theorem parse_replace {front payload replacement : List UInt8} {index : UInt16}
    (h : OpensText front index payload.length) (hlength : replacement.length = payload.length)
    (back : List UInt8) :
    (parse (front ++ replacement ++ back)).fault = (parse (front ++ payload ++ back)).fault ∧
      (parse (front ++ payload ++ back)).outline.SameBut index
        (parse (front ++ replacement ++ back)).outline := by
  obtain ⟨minor, major, before, behind, fault, last, hindex, hopening⟩ := h.readOpening_eq back
  have short : payload.length < 2 ^ 16 := h.1
  obtain ⟨hfits, hfirst⟩ := hopening payload short rfl
  obtain ⟨hfits', hsecond⟩ := hopening replacement (hlength ▸ short) hlength
  have hpool := Outline.pool_parse hfirst
  rw [Outline.parse_of_readOpening hfirst hsecond]
  refine ⟨rfl, rfl, rfl, rfl, rfl, rfl, rfl, rfl, rfl, rfl, fun place hplace => ?_⟩
  change (Outline.opened minor major _).pool.get? place = _
  have hne : Item.behind 1 before ≠ place.toNat := by
    rw [hindex]
    exact fun h => hplace (UInt16.toNat_inj.mp h.symm)
  rw [hpool, Outline.get?_pool_opened minor major hfits, Outline.get?_pool_opened minor major hfits',
    written_replace hne]

/-- At the index of a text an outline has what the bytes of the text say, and nothing if they cannot
be decoded. -/
theorem get?_parse_text {front payload : List UInt8} {index : UInt16}
    (h : OpensText front index payload.length) (back : List UInt8) :
    (parse (front ++ payload ++ back)).outline.pool.get? index =
      (ModifiedUtf8.decode payload).toOption.map Constant.utf8 := by
  obtain ⟨minor, major, before, behind, fault, last, hindex, hopening⟩ := h.readOpening_eq back
  obtain ⟨hfits, hrun⟩ := hopening payload h.1 rfl
  rw [Outline.pool_parse hrun, Outline.get?_pool_opened minor major hfits, written_text hindex,
    Pool.get?_empty, Option.or_none]

/-! ### Every text is opened -/

/-- A constant among others stands behind those that start before it. -/
theorem Item.exists_of_mem_placedFrom {start index : Nat} {item : Item} {items : List Item}
    (h : (index, item) ∈ placedFrom start items) :
    ∃ before behind, items = before ++ item :: behind ∧ Item.behind start before = index := by
  induction items generalizing start with
  | nil => cases h
  | cons first rest ih =>
    rcases List.mem_cons.mp h with heq | hrest
    · obtain ⟨rfl, rfl⟩ := Prod.mk.inj heq
      exact ⟨[], rest, rfl, rfl⟩
    · obtain ⟨before, behind, rfl, hindex⟩ := ih hrest
      exact ⟨first :: before, behind, rfl, hindex⟩

/-- Every text among the constants that are read is opened by what stands in front of it. -/
theorem exists_opensText {image payload : List UInt8} {minor major count : UInt16}
    {start stop last : Cursor} {items : List Item} {fault : Option Fault} {index : Nat}
    {short : payload.length < 2 ^ 16}
    (hpasses : (Cursor.front image).Passes (Layout.openingBytes minor major count []) start)
    (h : ReadsItems count.toNat 1 start items stop fault last)
    (htext : (index, .utf8 payload short) ∈ Item.placedFrom 1 items) :
    ∃ front back, image = front ++ payload ++ back ∧
      OpensText front (UInt16.ofNat index) payload.length := by
  have hindex : index < count.toNat := h.below _ htext
  have htoNat : (UInt16.ofNat index).toNat = index :=
    UInt16.toNat_ofNat_of_lt' (Nat.lt_trans hindex count.toNat_lt)
  obtain ⟨before, behind, rfl, hbefore⟩ := Item.exists_of_mem_placedFrom htext
  refine ⟨Layout.openingBytes minor major count before ++ ([1] ++ bigEndianBytes 2 payload.length),
    behind.flatMap Item.bytes ++ stop.rest, ?_, short, minor, major, count, before,
    hbefore.trans htoNat.symm, UInt16.lt_iff_toNat_lt.mpr (htoNat.symm ▸ hindex), rfl⟩
  have hrest := (hpasses.append h.passes).1
  rw [openingBytes_eq_append minor major count before]
  simpa [Cursor.front, Item.bytes] using hrest

/-- Every text of an outline is opened. -/
theorem exists_opensText_of_get? {image : List UInt8} {index : UInt16} {text : String}
    (h : (parse image).outline.pool.get? index = some (.utf8 text)) :
    ∃ front payload back, image = front ++ payload ++ back ∧
      OpensText front index payload.length ∧ (ModifiedUtf8.decode payload).toOption = some text := by
  rcases Outline.passes_or_pool_eq_empty image with
    ⟨minor, major, count, start, hpasses⟩ | ⟨fault, last, outline, hopening, hempty⟩
  case inr =>
    rw [Outline.pool_parse hopening, hempty, Pool.get?_empty] at h
    cases h
  obtain ⟨items, stop, fault, last, hreads⟩ := exists_readsItems count.toNat 1 start
  have hfits : ∀ p ∈ Item.placedFrom 1 items, p.1 < 2 ^ 16 :=
    fun p hp => Nat.lt_trans (hreads.below p hp) count.toNat_lt
  rw [Outline.pool_parse (Outline.readOpening_eq hpasses hreads),
    Outline.get?_pool_opened minor major hfits, written, Pool.get?_empty, Option.or_none] at h
  obtain ⟨⟨place, item⟩, hfound, hitem⟩ := Option.bind_eq_some_iff.mp h
  have hmem := List.mem_of_find?_eq_some hfound
  have hplace := List.find?_some hfound
  rw [decide_eq_true_eq] at hplace
  obtain rfl : place = index.toNat := hplace
  -- Only a text is read as a text.
  cases item with
  | utf8 payload short =>
    obtain ⟨text', hdecode, htext⟩ := Option.map_eq_some_iff.mp hitem
    obtain rfl := Constant.utf8.inj htext
    obtain ⟨front, back, himage, hopens⟩ := exists_opensText hpasses hreads hmem
    rw [UInt16.ofNat_toNat] at hopens
    exact ⟨front, payload, back, himage, hopens, hdecode⟩
  | _ => cases hitem

end JarAudit.ClassFile
