import JarAudit.CommandLine.Run
import JarAudit.Proofs.Jar
import JarAudit.Proofs.Reference.Agreement

/-!
# Commands on one class

Three commands are about one class: `info` parses its image, and `refs` and `missing` scan it. All
start alike, with a session, an entry in it and the contents of the entry (`readSelected`), and each
then asks one question of the contents (`askSelected`). A fault of the image is told in plain words,
and whatever went wrong before keeps its own. For this to be so, what can go wrong before must not
be taken for a fault of an image (`Foreign`), nor sound like one (`Cause.message_ne_of_isOfImage`).
-/

namespace JarAudit

open JarAudit.Files JarAudit.ClassFile

/-! ### Causes -/

/-- The cause is about a class image as such. -/
def Cause.isOfImage : Cause → Bool
  | imageFault _ | notAClass => true
  | _ => false

theorem head?_toList_append {start : String} {char : Char} (h : start.toList.head? = some char)
    (rest : String) : (start ++ rest).toList.head? = some char := by
  rw [String.toList_append, List.head?_append, h]
  rfl

theorem getLast?_toList_append {rest : String} {char : Char}
    (h : rest.toList.getLast? = some char) (start : String) :
    (start ++ rest).toList.getLast? = some char := by
  rw [String.toList_append, List.getLast?_append, h]
  rfl

/-- No cause that is about something else sounds as if the contents were not those of a class. -/
theorem Cause.message_ne_of_isOfImage {cause : Cause} (h : cause.isOfImage = false) :
    cause.message ≠ notAClass.message := by
  -- Nearly every other text opens with another letter.
  have hopening : ∀ char text, text.toList.head? = some char → char ≠ 'n' →
      text ≠ notAClass.message := by
    rintro char _ hhead hchar rfl
    have hn : notAClass.message.toList.head? = some 'n' := by decide +kernel
    exact hchar (Option.some.inj (hhead.symm.trans hn))
  cases cause with
  | imageFault | notAClass => cases h
  | openArchive | mapArchive | readStructure | openManifest | readFile | readClassFile | parseEntry
  | scanEntry =>
    exact hopening 'F' _ (head?_toList_append (by decide +kernel) _) (by decide)
  | invalidRoot =>
    exact hopening 'T' _ (head?_toList_append (by decide +kernel) _) (by decide)
  | entryNotFound name archive =>
    have hfront : ("Entry " ++ name).toList.head? = some 'E' :=
      head?_toList_append (by decide +kernel) name
    exact hopening 'E' _ (head?_toList_append (head?_toList_append hfront _) archive) (by decide)
  | readRecord name archive =>
    have hfront : ("Failed to read " ++ name).toList.head? = some 'F' :=
      head?_toList_append (by decide +kernel) name
    exact hopening 'F' _ (head?_toList_append (head?_toList_append hfront _) archive) (by decide)
  | mainClassNotFound name archive =>
    have hfront : ("Main-Class " ++ name).toList.head? = some 'M' :=
      head?_toList_append (by decide +kernel) name
    exact hopening 'M' _ (head?_toList_append (head?_toList_append hfront _) archive) (by decide)
  | noMainClass archive =>
    -- This one opens with a path, which may be any; so the ends are compared.
    have hend : " has no Main-Class; choose a class with --entry".toList.getLast? = some 'y' := by
      decide +kernel
    have hlast : (noMainClass archive).message.toList.getLast? = some 'y' :=
      getLast?_toList_append hend archive
    have hother : notAClass.message.toList.getLast? = some 'e' := by decide +kernel
    intro heq
    rw [heq, hother] at hlast
    exact absurd hlast (by decide)
  | systemFault fault => cases fault <;> decide +kernel
  | archiveFault fault => cases fault <;> decide +kernel
  | dataFault fault => cases fault <;> decide +kernel

/-! ### Failures that are not about class images -/

/-- When a result is a failure, none of its causes is about a class image. -/
def Foreign {α : Type} (result : Except Failure α) : Prop :=
  ∀ failure, result = .error failure → failure.causes.any Cause.isOfImage = false

namespace Foreign

variable {α β : Type}

theorem ok (a : α) : Foreign (.ok a) := nofun

theorem error {failure : Failure} (h : failure.causes.any Cause.isOfImage = false) :
    Foreign (.error failure : Except Failure α) := by
  rintro _ ⟨⟩
  exact h

theorem bind {result : Except Failure α} {next : α → Except Failure β} (hresult : Foreign result)
    (hnext : ∀ a, Foreign (next a)) : Foreign (result >>= next) := by
  cases result with
  | error failure => exact .error (hresult failure rfl)
  | ok a => exact hnext a

theorem inContext {cause : Cause} {result : Except Failure α} (hcause : cause.isOfImage = false)
    (hresult : Foreign result) : Foreign (inContext cause result) := by
  cases result with
  | ok a => exact .ok a
  | error failure =>
    have hcauses : (cause :: failure.causes).any Cause.isOfImage = false := by
      rw [List.any_cons, hcause, hresult failure rfl, Bool.or_false]
    exact .error hcauses

theorem mapM {f : α → Except Failure β} (hf : ∀ a, Foreign (f a)) (items : List α) :
    Foreign (items.mapM f) := by
  induction items with
  | nil => exact .ok []
  | cons item rest ih =>
    rw [List.mapM_cons]
    exact (hf item).bind fun b => ih.bind fun bs => .ok (b :: bs)

theorem liftFault (result : Except Zip.Fault α) : Foreign (Jar.liftFault result) := by
  cases result with
  | ok a => exact .ok a
  | error fault => cases fault <;> exact .error rfl

theorem liftData (result : Except Zip.DataFault α) : Foreign (Jar.liftData result) := by
  cases result with
  | ok a => exact .ok a
  | error fault => exact .error rfl

variable {result : Except Failure α}

/-- The failure does not say that contents are not those of a class. -/
theorem message_ne (h : Foreign result) {failure : Failure} (hfailure : result = .error failure) :
    failure.outermost.message ≠ "not a valid compiled Java class file" := by
  have hcauses := h failure hfailure
  rw [Failure.causes, List.any_cons, Bool.or_eq_false_iff] at hcauses
  exact Cause.message_ne_of_isOfImage hcauses.1

/-- The failure is not taken for one of a class image. -/
theorem plainFailure_eq (h : Foreign result) : CommandLine.plainFailure result = result := by
  cases result with
  | ok a => rfl
  | error failure =>
    have hclass : failure.isClassFile = false := by
      have hcauses := h failure rfl
      rw [List.any_eq_false] at hcauses
      rw [Failure.isClassFile, List.any_eq_false]
      intro cause hcause
      have hother := hcauses cause hcause
      cases cause with
      | imageFault fault => exact absurd rfl hother
      | _ => exact Bool.false_ne_true
    rw [CommandLine.plainFailure, Except.mapError, hclass]
    rfl

end Foreign

/-! ### What goes before -/

namespace Jar

theorem foreign_openAt (tree : Tree) (path : String) : Foreign (openAt tree path) := by
  rw [openAt]
  split
  · exact .error rfl
  · exact .error rfl
  · exact .inContext rfl (.liftFault _)

theorem foreign_entries (tree : Tree) (path : String) : Foreign (entries tree path) := by
  refine (foreign_openAt tree path).bind fun archive => ?_
  refine (Foreign.mapM (fun record => ?_) archive.records).bind fun listed => .ok _
  refine (Foreign.liftFault _).bind fun offset => ?_
  split
  · exact .ok none
  · exact .ok (some _)

theorem foreign_contents (tree : Tree) (path name : String) :
    Foreign (contents tree path name) := by
  refine (foreign_openAt tree path).bind fun archive => ?_
  refine (Foreign.inContext rfl (.liftFault _)).bind fun found => ?_
  exact .inContext rfl (.liftData _)

end Jar

namespace Session

theorem foreign_open (tree : Tree) (path : String) (recurse : Bool) :
    Foreign (Session.open tree path recurse) := by
  rw [Session.open]
  split
  · rw [openClassFile, standaloneEntry]
    split
    · exact .error rfl
    · exact .ok _
  · exact (Foreign.inContext rfl (Jar.foreign_entries tree path)).bind fun own => .ok _

theorem foreign_read (tree : Tree) (entry : Entry) : Foreign (read tree entry) := by
  rw [read]
  split
  · split
    · exact .ok _
    · exact .error rfl
  · exact Jar.foreign_contents tree entry.owningArchive entry.fullPath

end Session

namespace CommandLine

theorem foreign_selectEntry (session : Session) (entry : Option String) :
    Foreign (selectEntry session entry) := by
  unfold selectEntry
  dsimp only
  split
  · split
    · exact .ok _
    · exact .error rfl
  · exact .ok _
  · split
    · split
      · exact .ok _
      · exact .error rfl
    · exact .error rfl

/-- What a command on one class starts with: a session is opened, an entry of it selected, and the
contents of the entry are read. -/
def readSelected (tree : Tree) (recurse : Bool) (path : String) (entry : Option String) :
    Except Failure (Session × Entry × List UInt8) := do
  let session ← Session.open tree path recurse
  let selected ← selectEntry session entry
  let image ← Session.read tree selected
  return (session, selected, image)

theorem foreign_readSelected (tree : Tree) (recurse : Bool) (path : String)
    (entry : Option String) : Foreign (readSelected tree recurse path entry) := by
  refine (Session.foreign_open tree path recurse).bind fun session => ?_
  refine (foreign_selectEntry session entry).bind fun selected => ?_
  exact (Session.foreign_read tree selected).bind fun image => .ok _

/-! ### What is asked -/

section Asking

variable {α : Type} {selected : Except Failure (Session × Entry × List UInt8)}
  {ask : List UInt8 → Except Fault α} {conclude : Session → Entry → List UInt8 → α → Answer}

/-- A question is asked of the contents that were read, and an answer is made from what it gives. A
fault is told in plain words. -/
def askSelected (selected : Except Failure (Session × Entry × List UInt8))
    (ask : List UInt8 → Except Fault α) (conclude : Session → Entry → List UInt8 → α → Answer) :
    Except Failure Answer := do
  let (session, entry, image) ← selected
  ((ask image).map (conclude session entry image)).mapError fun _ => ⟨.notAClass, []⟩

theorem askSelected_eq_ok {answered : Answer} : askSelected selected ask conclude = .ok answered ↔
    ∃ session entry image a, selected = .ok (session, entry, image) ∧ ask image = .ok a ∧
      answered = conclude session entry image a := by
  rw [askSelected, bind_eq_ok]
  constructor
  · rintro ⟨⟨session, entry, image⟩, hselected, hasked⟩
    cases hask : ask image with
    | error fault =>
      simp only [hask] at hasked
      cases hasked
    | ok a =>
      simp only [hask] at hasked
      exact ⟨session, entry, image, a, hselected, hask, (Except.ok.inj hasked).symm⟩
  · rintro ⟨session, entry, image, a, hselected, hask, rfl⟩
    refine ⟨_, hselected, ?_⟩
    simp only [hask]
    rfl

/-- Asking fails when something failed before, and when the question meets a fault. -/
theorem askSelected_eq_error {failure : Failure} :
    askSelected selected ask conclude = .error failure ↔ selected = .error failure ∨
      failure = ⟨.notAClass, []⟩ ∧
        ∃ session entry image fault, selected = .ok (session, entry, image) ∧
          ask image = .error fault := by
  rw [askSelected, bind_eq_error]
  refine or_congr_right ?_
  constructor
  · rintro ⟨⟨session, entry, image⟩, hselected, hasked⟩
    cases hask : ask image with
    | ok a =>
      simp only [hask] at hasked
      cases hasked
    | error fault =>
      simp only [hask] at hasked
      exact ⟨(Except.error.inj hasked).symm, session, entry, image, fault, hselected, hask⟩
  · rintro ⟨rfl, session, entry, image, fault, hselected, hask⟩
    refine ⟨_, hselected, ?_⟩
    simp only [hask]
    rfl

/-- How a command on one class fails, by what was selected for it and what it asks. -/
structure FailsPlainly (selected : Except Failure (Session × Entry × List UInt8))
    (ask : List UInt8 → Except Fault α) (answered : Except Failure Answer) : Prop where
  /-- The plain words are for contents that were read and are not those of a class. -/
  notAClass : (∃ failure, answered = .error failure ∧
      failure.outermost.message = "not a valid compiled Java class file") ↔
    ∃ session entry image fault, selected = .ok (session, entry, image) ∧ ask image = .error fault
  /-- Nothing is added to the plain words. -/
  alone : ∀ failure, answered = .error failure →
    failure.outermost.message = "not a valid compiled Java class file" → failure.deeper = []
  /-- Every other failure is the one that came before, as it was. -/
  passedOn : ∀ failure, selected = .error failure ↔ answered = .error failure ∧
    failure.outermost.message ≠ "not a valid compiled Java class file"

theorem failsPlainly_askSelected (hselected : Foreign selected) :
    FailsPlainly selected ask (askSelected selected ask conclude) where
  notAClass := by
    constructor
    · rintro ⟨failure, hfailure, hmessage⟩
      rcases askSelected_eq_error.mp hfailure with hbefore | ⟨-, hfault⟩
      · exact absurd hmessage (hselected.message_ne hbefore)
      · exact hfault
    · intro hfault
      exact ⟨⟨.notAClass, []⟩, askSelected_eq_error.mpr (.inr ⟨rfl, hfault⟩), rfl⟩
  alone failure hfailure hmessage := by
    rcases askSelected_eq_error.mp hfailure with hbefore | ⟨rfl, -⟩
    · exact absurd hmessage (hselected.message_ne hbefore)
    · rfl
  passedOn failure := by
    constructor
    · intro hbefore
      exact ⟨askSelected_eq_error.mpr (.inl hbefore), hselected.message_ne hbefore⟩
    · rintro ⟨hfailure, hmessage⟩
      rcases askSelected_eq_error.mp hfailure with hbefore | ⟨rfl, -⟩
      · exact hbefore
      · exact absurd rfl hmessage

end Asking

/-! ### The commands -/

/-- A fault of contents is found in the context of their entry, which the plain words leave out. -/
theorem plainFailure_bind_eq {α β : Type} {contents : Except Failure (List UInt8)}
    (hcontents : Foreign contents) (cause : Cause) (ask : List UInt8 → Except Fault α)
    (f : List UInt8 → α → β) :
    plainFailure (contents >>= fun image =>
        inContext cause (Session.liftImage (ask image)) >>= fun a => pure (f image a)) =
      contents >>= fun image =>
        ((ask image).map (f image)).mapError fun _ => ⟨.notAClass, []⟩ := by
  cases contents with
  | error failure =>
    have hfailure : Foreign (.error failure : Except Failure β) := .error (hcontents failure rfl)
    exact hfailure.plainFailure_eq
  | ok image =>
    change plainFailure (inContext cause (Session.liftImage (ask image)) >>= _) =
      ((ask image).map _).mapError _
    cases ask image with
    | ok a => rfl
    | error fault =>
      -- Whatever the context is, the fault in it counts.
      have hclass : (Failure.within cause ⟨.imageFault fault, []⟩).isClassFile = true := by
        rw [Failure.isClassFile, List.any_eq_true]
        exact ⟨.imageFault fault, List.mem_cons_of_mem _ List.mem_cons_self, rfl⟩
      exact congrArg Except.error (if_pos hclass)

section Commands

variable (tree : Tree) (recurse : Bool) (library : SystemLibrary) (path : String)
  (entry : Option String)

/-- A command that asks the contents of the entry that was selected. -/
theorem bind_plainFailure_eq_askSelected {α β : Type} (cause : Entry → Cause)
    (ask : List UInt8 → Except Fault α) (f : Session → Entry → List UInt8 → α → β)
    (conclude : Session → Entry → β → Answer) :
    (Session.open tree path recurse >>= fun session =>
      selectEntry session entry >>= fun selected =>
        plainFailure (Session.read tree selected >>= fun image =>
          inContext (cause selected) (Session.liftImage (ask image)) >>= fun a =>
            pure (f session selected image a)) >>= fun b =>
          pure (conclude session selected b)) =
      askSelected (readSelected tree recurse path entry) ask fun session selected image a =>
        conclude session selected (f session selected image a) := by
  simp only [askSelected, readSelected, bind_assoc, pure_bind]
  refine bind_congr fun session => bind_congr fun selected => ?_
  rw [plainFailure_bind_eq (Session.foreign_read tree selected), bind_assoc]
  refine bind_congr fun image => ?_
  cases ask image <;> rfl

theorem answer_info_eq : answer tree recurse library (.info path entry) =
    askSelected (readSelected tree recurse path entry) (fun image => (parse image).toExcept)
      fun _ selected _ outline => .info path selected.fullPath outline := by
  rw [← bind_plainFailure_eq_askSelected tree recurse path entry (fun selected =>
    .parseEntry selected.fullPath) _ (fun _ _ _ outline => outline)]
  simp only [answer, Session.describe, bind_pure]

theorem answer_refs_eq : answer tree recurse library (.refs path entry) =
    askSelected (readSelected tree recurse path entry) Reference.references
      fun _ selected _ names => .refs path selected.fullPath (NameSet.ofList names) := by
  rw [← bind_plainFailure_eq_askSelected tree recurse path entry (fun selected =>
    .scanEntry selected.fullPath) _ (fun _ _ _ names => NameSet.ofList names)]
  simp only [answer, Session.included, Session.references, bind_assoc, pure_bind]

theorem answer_missing_eq : answer tree recurse library (.missing path entry) =
    askSelected (readSelected tree recurse path entry) Reference.references
      fun session selected image names => .missing path selected.fullPath (library.get tree).1
        (JarAudit.missing names session.provided (library.get tree).1.names
          ((parse image).outline.className.or selected.className?)) := by
  rw [← bind_plainFailure_eq_askSelected tree recurse path entry (fun selected =>
    .scanEntry selected.fullPath) _ (fun session selected image names =>
      JarAudit.missing names session.provided (library.get tree).1.names
        ((parse image).outline.className.or selected.className?)) (fun _ selected names =>
      .missing path selected.fullPath (library.get tree).1 names)]
  simp only [answer, Session.missing, Session.references, bind_assoc, pure_bind]

/-- When `info` succeeds on a class, `refs` and `missing` do too, on the same entry, and nothing is
missing that is not referred to. All three fail alike: the plain words are for contents that were
read and cannot be parsed, or scanned, and every other failure is passed on. -/
theorem class_commands_agree (tree : Tree) (recurse : Bool) (library : SystemLibrary)
    (path : String) (entry : Option String) :
    (∀ answered, answer tree recurse library (.info path entry) = .ok answered →
      ∃ name outline referenced system missing, answered = .info path name outline ∧
        answer tree recurse library (.refs path entry) = .ok (.refs path name referenced) ∧
        answer tree recurse library (.missing path entry) =
          .ok (.missing path name system missing) ∧
        ∀ reference ∈ missing, reference ∈ referenced) ∧
    FailsPlainly (readSelected tree recurse path entry) (fun image => (parse image).toExcept)
      (answer tree recurse library (.info path entry)) ∧
    FailsPlainly (readSelected tree recurse path entry) Reference.references
      (answer tree recurse library (.refs path entry)) ∧
    FailsPlainly (readSelected tree recurse path entry) Reference.references
      (answer tree recurse library (.missing path entry)) := by
  have hforeign := foreign_readSelected tree recurse path entry
  rw [answer_info_eq, answer_refs_eq, answer_missing_eq]
  refine ⟨?_, failsPlainly_askSelected hforeign, failsPlainly_askSelected hforeign,
    failsPlainly_askSelected hforeign⟩
  intro answered hinfo
  obtain ⟨session, selected, image, outline, hselected, hparse, rfl⟩ := askSelected_eq_ok.mp hinfo
  have hcomplete : (parse image).fault = none := by
    cases hfault : (parse image).fault with
    | none => rfl
    | some fault =>
      rw [Reading.toExcept, hfault] at hparse
      cases hparse
  -- The scan stops no earlier than the parse does.
  obtain ⟨names, hnames⟩ := Reference.exists_references_of_complete hcomplete
  refine ⟨selected.fullPath, outline, NameSet.ofList names, (library.get tree).1, _, rfl,
    askSelected_eq_ok.mpr ⟨session, selected, image, names, hselected, hnames, rfl⟩,
    askSelected_eq_ok.mpr ⟨session, selected, image, names, hselected, hnames, rfl⟩, ?_⟩
  intro reference hmissing
  exact NameSet.mem_ofList.mpr (mem_missing.mp hmissing).1

end Commands

/-- A directory with a class file, whose image refers to `B`. -/
def soloTree : Tree where
  root := .directory [("A.class", .file ⟨#[
    202, 254, 186, 190, 0, 0, 0, 52, 0, 3, 1, 0, 1, 66, 7, 0, 1,
    0, 0, 0, 0, 0, 0, 0, 0, 0, 0, 0, 0, 0, 0]⟩ 0)]

/-- The three commands on the class file. -/
theorem class_commands_agree_solo :
    ∃ answered, answer soloTree true { classPath := [] } (.info "A.class" none) = .ok answered ∧
      ∃ name outline referenced system missing, answered = .info "A.class" name outline ∧
        answer soloTree true { classPath := [] } (.refs "A.class" none) =
          .ok (.refs "A.class" name referenced) ∧
        answer soloTree true { classPath := [] } (.missing "A.class" none) =
          .ok (.missing "A.class" name system missing) ∧
        ∀ reference ∈ missing, reference ∈ referenced := by
  have hinfo : (answer soloTree true { classPath := [] } (.info "A.class" none)).toOption.isSome =
      true := by decide +kernel
  obtain ⟨answered, hanswered⟩ := Option.isSome_iff_exists.mp hinfo
  rw [toOption_eq_some] at hanswered
  exact ⟨answered, hanswered, (class_commands_agree soloTree true { classPath := [] } "A.class"
    none).1 answered hanswered⟩

end CommandLine

end JarAudit
