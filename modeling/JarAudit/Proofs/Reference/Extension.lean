import JarAudit.Proofs.ClassFile.Extension
import JarAudit.Reference.Scan

/-!
# Scans with more bytes behind the image

A scan for references carries on like the reading of an outline does, and stops at the end of the
constants. It keeps no record that shows when it fails, so its record may grow in any way
(`Growth.free`).
-/

namespace JarAudit.Reference

open JarAudit.ClassFile JarAudit.ClassFile.Reader

theorem scanConstants_steady (searchDescriptors : Bool) (count index : Nat) :
    Steady Growth.free (fun _ => True) (fun _ => True)
      (scanConstants searchDescriptors count index) := by
  fun_induction scanConstants searchDescriptors count index with
  | case1 index hindex hskip hkeep =>
    refine (Steady.of_parallel (Constant.read_parallel _)).bind fun constant => ?_
    cases constant with
    | none => exact hskip
    | some constant =>
      exact (Steady.note (fun _ _ => trivial) fun _ _ => trivial).bind fun _ => hkeep constant
  | case2 index hindex => exact Steady.pure ()

theorem scan_steady : Steady Growth.free (fun _ => True) (fun _ => True) scan := by
  refine (Steady.of_parallel readMagic_parallel).bind fun _ => ?_
  refine (Steady.of_parallel u2_parallel).bind fun minor => ?_
  refine (Steady.of_parallel u2_parallel).bind fun major => ?_
  refine (Steady.of_parallel u2_parallel).bind fun count => ?_
  exact scanConstants_steady (major < firstPlainMajor) count.toNat 1

/-- How many bytes of an image are scanned. -/
def scanned (image : List UInt8) : Nat := (final (scan (Cursor.front image, {}))).1.position

variable {image : List UInt8}

/-- More bytes change nothing when an image was scanned to the end of its constants or means
nothing. -/
theorem references_append_of_settled
    (h : ∀ fault, references image = .error fault → fault.isStructural = true)
    (more : List UInt8) : references (image ++ more) = references image := by
  rw [references] at h ⊢
  rw [references]
  cases hrun : scan (Cursor.front image, {}) with
  | ok _ s => rw [scan_steady.run_append_of_ok trivial hrun]
  | error fault s =>
    rw [hrun] at h
    rw [scan_steady.run_append_of_structural trivial hrun (h fault rfl)]

/-- A scan that ends too soon stops at the same place until the bytes asked for are there. -/
theorem references_append_of_truncated {offset needed available : Nat}
    (h : references image = .error (.truncated offset needed available)) :
    offset + available = image.length ∧ available < needed ∧ ∀ more : List UInt8,
      more.length < needed - available →
        references (image ++ more) =
          .error (.truncated offset needed (available + more.length)) := by
  rw [references] at h
  cases hrun : scan (Cursor.front image, {}) with
  | ok _ s =>
    rw [hrun] at h
    cases h
  | error fault s =>
    rw [hrun] at h
    obtain rfl := Except.error.inj h
    obtain ⟨hlength, hneeded, hmore⟩ := scan_steady.run_append_of_truncated trivial hrun
    refine ⟨hlength, hneeded, fun more hlt => ?_⟩
    rw [references, (hmore more).1 hlt]

/-- No smaller part of what was scanned of an image can be scanned. -/
theorem references_take_of_ok {names : List String} {count : Nat}
    (h : references image = .ok names) (hcount : count < scanned image) :
    ∃ offset needed available,
      references (image.take count) = .error (.truncated offset needed available) := by
  rw [references] at h
  rw [scanned] at hcount
  cases hrun : scan (Cursor.front image, {}) with
  | ok _ s =>
    rw [hrun] at hcount
    obtain ⟨offset, needed, available, s, hshort⟩ :=
      scan_steady.run_take_of_ok trivial hrun hcount
    rw [references, hshort]
    exact ⟨offset, needed, available, rfl⟩
  | error fault s =>
    rw [hrun] at h
    cases h

/-- What more bytes change, and what fewer: an image that was parsed or means nothing is parsed alike
whatever follows it; one that ends too soon tells how many bytes there were and how many are missing,
stops at the same place until they are there, and has an outline that longer images extend; no part
of what is read of an image can be parsed on its own. The same holds of the references of an image
and of what is scanned of it. -/
theorem extension_law :
    (∀ image : List UInt8, (∀ fault ∈ (parse image).fault, fault.isStructural = true) →
      ∀ more, parse (image ++ more) = parse image) ∧
    (∀ (image : List UInt8) (offset needed available : Nat),
      (parse image).fault = some (.truncated offset needed available) →
      offset + available = image.length ∧ available < needed ∧ ∀ more : List UInt8,
        (more.length < needed - available →
          parse (image ++ more) =
            ⟨(parse image).outline, some (.truncated offset needed (available + more.length))⟩) ∧
        (parse image).outline.Extends (parse (image ++ more)).outline) ∧
    (∀ image : List UInt8, (parse image).fault = none → ∀ count < Outline.consumed image,
      ∃ offset needed available,
        (parse (image.take count)).fault = some (.truncated offset needed available)) ∧
    (∀ image : List UInt8,
      (∀ fault, references image = .error fault → fault.isStructural = true) →
      ∀ more, references (image ++ more) = references image) ∧
    (∀ (image : List UInt8) (offset needed available : Nat),
      references image = .error (.truncated offset needed available) →
      offset + available = image.length ∧ available < needed ∧ ∀ more : List UInt8,
        more.length < needed - available →
          references (image ++ more) =
            .error (.truncated offset needed (available + more.length))) ∧
    (∀ (image : List UInt8) (names : List String), references image = .ok names →
      ∀ count < scanned image, ∃ offset needed available,
        references (image.take count) = .error (.truncated offset needed available)) := by
  refine ⟨?_, ?_, ?_, ?_, ?_, ?_⟩
  · intro image hsettled more
    exact parse_append_of_settled hsettled more
  · intro image offset needed available htruncated
    exact parse_append_of_truncated htruncated
  · intro image hcomplete count hcount
    exact parse_take_of_complete hcomplete hcount
  · intro image hsettled more
    exact references_append_of_settled hsettled more
  · intro image offset needed available htruncated
    exact references_append_of_truncated htruncated
  · intro image names hnames count hcount
    exact references_take_of_ok hnames hcount

end JarAudit.Reference
