import QueryTidy.Document
import QueryTidy.Proofs.Place.Resolution

/-! The edits that lay a document out. The range of a whole document can be resolved in it, however
its last line ends. Main statement: `applyAll_edits`. -/
namespace QueryTidy

namespace Edit
open Position

theorem apply_document (t new : Text) : apply ⟨.document t, new⟩ t = .ok new := by
  refine apply_eq_ok_iff.2 ⟨[], t, [], by simp, rfl, ?_, by simp⟩
  rfl

theorem toMake_eq_nil_iff {target source : Text} :
    toMake target source = [] ↔ target = source := by
  unfold toMake
  split <;> simp_all

theorem applyAll_toMake (target source : Text) :
    applyAll source (toMake target source) = .ok target := by
  by_cases h : target = source
  · rw [toMake_eq_nil_iff.2 h, h]
    rfl
  · rw [toMake, if_neg h, applyAll, apply_document]
    rfl

end Edit

namespace Layout

/-- The edits for a document turn it into what it is laid out to. They are the ones that come with
the laid out document, and there are none only if it has not changed. -/
theorem applyAll_edits (options : Options) (t : Text) :
    Edit.applyAll t (edits options t) = .ok (format options t) ∧
      (Formatted.of options t).text = format options t ∧
      (Formatted.of options t).edits = edits options t ∧
      (edits options t = [] ↔ (Formatted.of options t).changed = false) := by
  refine ⟨Edit.applyAll_toMake _ t, rfl, rfl, ?_⟩
  rw [edits, Edit.toMake_eq_nil_iff, Formatted.changed, decide_eq_false_iff_not, Decidable.not_not]
  rfl

end Layout
end QueryTidy
