import QueryTidy.Wire.Encode

/-! Reports that are sent to an editor and come back. Nothing but the category is lost. Main
statements: `decodeDiagnostic_of_encode`, `mapM_sendBack`. -/
namespace QueryTidy.Wire

theorem mapM_eq_ok {α β ε : Type} {f : α → Except ε β} {g : α → β} {items : List α}
    (h : ∀ a ∈ items, f a = .ok (g a)) : items.mapM f = .ok (items.map g) := by
  induction items with
  | nil => rfl
  | cons a items ih =>
    obtain ⟨ha, hi⟩ := List.forall_mem_cons.1 h
    rw [List.mapM_cons, ha, ih hi]
    rfl

theorem decodePosition_encodePosition (p : Position) :
    decodePosition (encodePosition p) = .ok p := by
  have hn : ¬ ((p.line : Int) < 0 ∨ (p.column : Int) < 0) := by omega
  have h : Position.ofInts p.line p.column = .ok p := by
    rw [Position.ofInts, if_neg hn]
    rfl
  change (Position.ofInts p.line p.column).mapError Fault.place = _
  rw [h]
  rfl

theorem decodeRange_encodeRange (r : Range) : decodeRange (encodeRange r) = .ok r := by
  have h : Range.between r.start r.stop = .ok r := dif_pos r.ordered
  change (do
    let start ← decodePosition (encodePosition r.start)
    let stop ← decodePosition (encodePosition r.stop)
    (Range.between start stop).mapError Fault.place) = _
  rw [decodePosition_encodePosition, decodePosition_encodePosition]
  change (Range.between r.start r.stop).mapError Fault.place = _
  rw [h]
  rfl

theorem decodeSeverity_number {s : Severity} (h : s ∈ Severity.numbered) :
    ∃ n, s.number? = some n ∧ decodeSeverity (.int n) = .ok s := by
  simp only [Severity.numbered, List.mem_cons, List.not_mem_nil, or_false] at h
  obtain rfl | rfl | rfl | rfl := h
  · exact ⟨1, rfl, rfl⟩
  · exact ⟨2, rfl, rfl⟩
  · exact ⟨3, rfl, rfl⟩
  · exact ⟨4, rfl, rfl⟩

/-- A report with a severity that has a number can be sent, and comes back without its category. -/
theorem decodeDiagnostic_of_encode {d : Diagnostic} (h : d.severity ∈ Severity.numbered) :
    ∃ value, encodeDiagnostic d = .ok value ∧
      decodeDiagnostic value = .ok { d with category := none } := by
  obtain ⟨n, hn, hs⟩ := decodeSeverity_number h
  refine ⟨_, by rw [encodeDiagnostic, hn], ?_⟩
  change (do
    let range ← decodeRange (encodeRange d.range)
    let severity ← decodeSeverity (.int n)
    return ({ code := d.code, message := d.message, range, severity, source := d.source } :
      Diagnostic)) = _
  rw [decodeRange_encodeRange, hs]
  rfl

def sendBack (d : Diagnostic) : Except Fault Diagnostic := encodeDiagnostic d >>= decodeDiagnostic

theorem mapM_sendBack {ds : List Diagnostic} (h : ∀ d ∈ ds, d.severity ∈ Severity.numbered) :
    ds.mapM sendBack = .ok (ds.map ({ · with category := none })) := by
  refine mapM_eq_ok ?_
  intro d hd
  obtain ⟨value, he, hv⟩ := decodeDiagnostic_of_encode (h d hd)
  rw [sendBack, he]
  exact hv

end QueryTidy.Wire
