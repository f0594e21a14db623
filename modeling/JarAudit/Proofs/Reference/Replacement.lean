import JarAudit.Proofs.ClassFile.Replacement
import JarAudit.Proofs.Reference.Agreement
import JarAudit.Proofs.Reference.Extension

/-!
# Scans and the content of texts

Whether a scan for references fails does not depend on what the texts of an image say, for it fails
where the opening of the outline does (`references_eq_error_iff`). With what the content of a text
can change in an outline, this says all that it can change in what is read of an image.
-/

namespace JarAudit.Reference

open JarAudit.Text JarAudit.ClassFile JarAudit.ClassFile.Reader

variable {image : List UInt8}

/-- A scan fails where the opening of the outline does. -/
theorem references_eq_error_iff {fault : Fault} :
    references image = .error fault ↔
      ∃ s, Outline.readOpening (Cursor.front image, {}) = .error fault s := by
  have hruns := opening_lockstep (Cursor.front image) {} {} ⟨Outline.openFrom_empty 0, rfl⟩
  rw [references]
  generalize Outline.readOpening (Cursor.front image, {}) = opening at hruns ⊢
  generalize scan (Cursor.front image, {}) = scanned at hruns ⊢
  cases hruns with
  | ok a next record other => simp only [reduceCtorEq, exists_false]
  | error stopped next record other => simp

/-- The bytes of a text may be replaced by as many others: a scan fails with the same fault, or
neither fails. -/
theorem references_replace {front payload replacement : List UInt8} {index : UInt16}
    (h : OpensText front index payload.length) (hlength : replacement.length = payload.length)
    (back : List UInt8) (fault : Fault) :
    references (front ++ replacement ++ back) = .error fault ↔
      references (front ++ payload ++ back) = .error fault := by
  obtain ⟨minor, major, before, behind, stopped, last, -, hopening⟩ := h.readOpening_eq back
  have short : payload.length < 2 ^ 16 := h.1
  rw [references_eq_error_iff, references_eq_error_iff, (hopening payload short rfl).2,
    (hopening replacement (hlength ▸ short) hlength).2, exists_endAt_eq_error,
    exists_endAt_eq_error]

/-- No outline ends at a text that cannot be decoded. -/
theorem fault_parse_ne_malformed (image : List UInt8) (malformed : ModifiedUtf8.Malformed) :
    (parse image).fault ≠ some (.malformedString malformed) := by
  intro h
  rw [parse] at h
  cases hrun : Outline.read (Cursor.front image, {}) with
  | ok _ s =>
    rw [hrun] at h
    cases h
  | error fault s =>
    rw [hrun] at h
    obtain rfl := Option.some.inj h
    exact Outline.read_steady.run_ne_malformed Outline.unread_empty malformed s hrun

/-- No scan ends at a text that cannot be decoded. -/
theorem references_ne_malformed (image : List UInt8) (malformed : ModifiedUtf8.Malformed) :
    references image ≠ .error (.malformedString malformed) := by
  intro h
  rw [references] at h
  cases hrun : scan (Cursor.front image, {}) with
  | ok _ s =>
    rw [hrun] at h
    cases h
  | error fault s =>
    rw [hrun] at h
    obtain rfl := Except.error.inj h
    exact scan_steady.run_ne_malformed trivial malformed s hrun

/-- What a text says has no influence on the rest of an image. When the bytes of a text are replaced
by as many others, the image is parsed to the same fault or none and to the same outline, but for
the index of the text, where the new text stands if it can be decoded and nothing otherwise; and the
image is scanned to the same fault or none. Every text that is read of an image can be replaced in
this way, decoded or not, and so can every text of an outline. No text makes a parse or a scan
fail. -/
theorem text_replacement :
    (∀ (index : UInt16) (front payload replacement back : List UInt8),
      OpensText front index payload.length → replacement.length = payload.length →
      (parse (front ++ replacement ++ back)).fault = (parse (front ++ payload ++ back)).fault ∧
      (parse (front ++ payload ++ back)).outline.SameBut index
        (parse (front ++ replacement ++ back)).outline ∧
      (parse (front ++ replacement ++ back)).outline.pool.get? index =
        (ModifiedUtf8.decode replacement).toOption.map Constant.utf8 ∧
      ∀ fault, references (front ++ replacement ++ back) = .error fault ↔
        references (front ++ payload ++ back) = .error fault) ∧
    (∀ (image payload : List UInt8) (minor major count : UInt16) (start stop last : Cursor)
      (items : List Item) (fault : Option Fault) (index : Nat) (short : payload.length < 2 ^ 16),
      (Cursor.front image).Passes (Layout.openingBytes minor major count []) start →
      ReadsItems count.toNat 1 start items stop fault last →
      (index, .utf8 payload short) ∈ Item.placedFrom 1 items →
      ∃ front back, image = front ++ payload ++ back ∧
        OpensText front (UInt16.ofNat index) payload.length) ∧
    (∀ (image : List UInt8) (index : UInt16) (text : String),
      (parse image).outline.pool.get? index = some (.utf8 text) →
      ∃ front payload back, image = front ++ payload ++ back ∧
        OpensText front index payload.length ∧
        (ModifiedUtf8.decode payload).toOption = some text) ∧
    ∀ (image : List UInt8) (malformed : ModifiedUtf8.Malformed),
      (parse image).fault ≠ some (.malformedString malformed) ∧
        references image ≠ .error (.malformedString malformed) := by
  refine ⟨?_, ?_, ?_, ?_⟩
  · intro index front payload replacement back hopens hlength
    obtain ⟨hfault, hsame⟩ := parse_replace hopens hlength back
    have hopens' : OpensText front index replacement.length := hlength ▸ hopens
    exact ⟨hfault, hsame, get?_parse_text hopens' back, references_replace hopens hlength back⟩
  · intro image payload minor major count start stop last items fault index short hpasses hreads
      htext
    exact exists_opensText hpasses hreads htext
  · intro image index text htext
    exact exists_opensText_of_get? htext
  · intro image malformed
    exact ⟨fault_parse_ne_malformed image malformed, references_ne_malformed image malformed⟩

end JarAudit.Reference
