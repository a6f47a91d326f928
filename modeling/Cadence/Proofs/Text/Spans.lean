import Mathlib.Data.List.Basic
import Cadence.Report
import Cadence.Proofs.Text.Separators

/-!
# Spans that fall between characters

A span counts bytes, a text is a sequence of characters.  A span marks a part of
a text if it starts and ends between characters of it; the part is then the only
one that the span marks, and a report finds its column and its width by counting
characters.
-/

namespace Cadence

theorem byteLength_append (first second : List Char) :
    byteLength (first ++ second) = byteLength first + byteLength second := by
  induction first with
  | nil => exact (Nat.zero_add _).symm
  | cons c first ih =>
    rw [List.cons_append, byteLength, byteLength, ih, Nat.add_assoc]

theorem byteLength_cons_pos (c : Char) (text : List Char) : 0 < byteLength (c :: text) :=
  Nat.add_pos_left c.utf8Size_pos _

/-- No character is shorter than a byte. -/
theorem length_le_byteLength (text : List Char) : text.length ≤ byteLength text := by
  induction text with
  | nil => exact Nat.le_refl 0
  | cons c text ih =>
    have hsize := c.utf8Size_pos
    rw [List.length_cons, byteLength]
    omega

/-- Blanks are one byte long. -/
theorem utf8Size_of_isAsciiBlank {c : Char} (hblank : isAsciiBlank c = true) :
    c.utf8Size = 1 := by
  simp only [isAsciiBlank, Bool.or_eq_true, decide_eq_true_eq] at hblank
  rcases hblank with (((rfl | rfl) | rfl) | rfl) | rfl <;> rfl

/-- The bytes of a text are those of its characters. -/
theorem byteLength_toList (text : String) : byteLength text.toList = text.utf8ByteSize := by
  have hchars : ∀ chars : List Char, byteLength chars = (String.ofList chars).utf8ByteSize := by
    intro chars
    induction chars with
    | nil => simp [byteLength]
    | cons c chars ih =>
      have hsplit : String.ofList (c :: chars) = String.singleton c ++ String.ofList chars := by
        rw [String.singleton_eq_ofList, ← String.ofList_append, List.singleton_append]
      rw [byteLength, ih, hsplit, String.utf8ByteSize_append, String.utf8ByteSize_singleton]
  rw [hchars, String.ofList_toList]

/-- The bytes of a part are the characters of that part. -/
theorem charsBefore?_byteLength (before after : List Char) :
    charsBefore? (byteLength before) (before ++ after) = some before.length := by
  induction before with
  | nil => rw [byteLength, charsBefore?]; rfl
  | cons c before ih =>
    obtain ⟨bytes, hbytes⟩ : ∃ bytes, byteLength (c :: before) = bytes + 1 :=
      Nat.exists_eq_succ_of_ne_zero (Nat.ne_of_gt (byteLength_cons_pos c before))
    have hsize : c.utf8Size + byteLength before = bytes + 1 := hbytes
    have hrest : bytes + 1 - c.utf8Size = byteLength before := by omega
    rw [hbytes, List.cons_append, charsBefore?, if_pos (by omega), hrest, ih]
    rfl

/-- Two cuts of a text at the same byte are the same cut. -/
theorem eq_of_append_of_byteLength_eq {before after other rest : List Char}
    (htext : before ++ after = other ++ rest) (hbytes : byteLength before = byteLength other) :
    before = other ∧ after = rest := by
  have hlength : some before.length = some other.length := by
    rw [← charsBefore?_byteLength before after, htext, hbytes, charsBefore?_byteLength]
  exact List.append_inj htext (Option.some.inj hlength)

namespace Span

/-- A span that starts and ends between characters of a text, and the characters
under it. -/
def Marks (span : Span) (text body : List Char) : Prop :=
  ∃ before after, text = before ++ body ++ after ∧ span.start = byteLength before ∧
    span.stop = byteLength before + byteLength body

namespace Marks

variable {span : Span} {text body other : List Char}

theorem unique (hbody : span.Marks text body) (hother : span.Marks text other) :
    body = other := by
  obtain ⟨before, after, htext, hstart, hstop⟩ := hbody
  obtain ⟨before', after', htext', hstart', hstop'⟩ := hother
  rw [htext, List.append_assoc, List.append_assoc] at htext'
  obtain ⟨rfl, hrest⟩ := eq_of_append_of_byteLength_eq htext' (by omega)
  exact (eq_of_append_of_byteLength_eq hrest (by omega)).1

theorem start_le_stop (hbody : span.Marks text body) : span.start ≤ span.stop := by
  obtain ⟨before, after, htext, hstart, hstop⟩ := hbody
  omega

theorem stop_le_byteLength (hbody : span.Marks text body) : span.stop ≤ byteLength text := by
  obtain ⟨before, after, rfl, hstart, hstop⟩ := hbody
  rw [byteLength_append, byteLength_append]
  omega

/-- A report counts the characters before the span and under it. -/
theorem column_width {excerpt : Excerpt} {before after : List Char}
    (htext : excerpt.input.toList = before ++ body ++ after)
    (hstart : excerpt.span.start = byteLength before)
    (hstop : excerpt.span.stop = byteLength before + byteLength body) :
    excerpt.column = before.length ∧ excerpt.width = body.length := by
  have hcolumn : charsBefore? excerpt.span.start excerpt.input.toList = some before.length := by
    rw [hstart, htext, List.append_assoc, charsBefore?_byteLength]
  have hthrough : charsBefore? excerpt.span.stop excerpt.input.toList =
      some (before.length + body.length) := by
    rw [hstop, htext, ← byteLength_append, charsBefore?_byteLength, List.length_append]
  have hle : excerpt.span.start ≤ excerpt.span.stop := by omega
  constructor
  · rw [Excerpt.column, hcolumn, Option.getD_some]
  · rw [Excerpt.width, hcolumn, hthrough]
    simp only [hle, if_true, Nat.add_sub_cancel_left]

end Marks

end Span

end Cadence
