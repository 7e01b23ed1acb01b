import TokenStream.Trivia
import Mathlib.Data.List.TakeWhile
import Mathlib.Tactic

/-!
# Separators

What may stand between two tokens, as a grammar: blanks and comments in any order, each comment
with the newline that ends it. Behind the last token a comment may also run to the end of the
text.

**Results** every text is either a trailer or a separator with a character behind it that opens
neither a blank nor a comment, and passing over blanks and comments stops exactly there.
-/

namespace TokenStream

/-- Blanks and comments, each comment with the newline that ends it. -/
inductive Separator : List Char → Prop
  | empty : Separator []
  | blank
      {c : Char} {w : List Char}
      (hc : isBlank c = true)
      (hw : Separator w) :
      Separator (c :: w)
  | comment
      {body w : List Char}
      (hbody : '\n' ∉ body)
      (hw : Separator w) :
      Separator (commentMark :: (body ++ '\n' :: w))

/-- What may stand behind the last token: the last comment need not end. -/
inductive Trailer : List Char → Prop
  | separator
      {w : List Char}
      (hw : Separator w) :
      Trailer w
  | comment
      {w body : List Char}
      (hw : Separator w)
      (hbody : '\n' ∉ body) :
      Trailer (w ++ commentMark :: body)

/-- The character is a blank or opens a comment. -/
def opensTrivia (c : Char) : Bool :=
  isBlank c || c = commentMark

theorem isBlank_eq_false_of_opensTrivia
    {c : Char}
    (h : opensTrivia c = false) :
    isBlank c = false := by
  simp only [opensTrivia, Bool.or_eq_false_iff] at h
  exact h.1

theorem ne_commentMark_of_opensTrivia
    {c : Char}
    (h : opensTrivia c = false) :
    c ≠ commentMark := by
  simp only [opensTrivia, Bool.or_eq_false_iff, decide_eq_false_iff_not] at h
  exact h.2

namespace Separator

theorem append
    {v w : List Char}
    (hv : Separator v)
    (hw : Separator w) :
    Separator (v ++ w) := by
  induction hv with
  | empty => exact hw
  | blank hc _ ih => exact .blank hc ih
  | @comment body v hbody _ ih =>
      have h := Separator.comment hbody ih
      simpa using h

/-- A separator that is not empty starts with a blank or a comment. -/
theorem opensTrivia_of_head
    {w : List Char} {a : Char}
    (hw : Separator w)
    (ha : a ∈ w.head?) :
    opensTrivia a = true := by
  cases hw with
  | empty => simp at ha
  | blank hc _ =>
      obtain rfl : a = _ := by simpa using ha.symm
      simp [opensTrivia, hc]
  | comment _ _ =>
      obtain rfl : a = commentMark := by simpa using ha.symm
      rfl

end Separator

namespace Trailer

theorem append
    {v w : List Char}
    (hv : Separator v)
    (hw : Trailer w) :
    Trailer (v ++ w) := by
  cases hw with
  | separator hw => exact .separator (hv.append hw)
  | comment hw hbody =>
      rw [← List.append_assoc]
      exact .comment (hv.append hw) hbody

end Trailer

/-- A text is a trailer, or a separator stands in front of a character that is neither a blank
nor a comment mark. -/
theorem trailer_or_separator (cs : List Char) :
    Trailer cs ∨
    ∃ w a r, cs = w ++ a :: r ∧ Separator w ∧ opensTrivia a = false := by
  -- by the length: a comment takes away more than one character
  induction hn : cs.length using Nat.strong_induction_on generalizing cs with
  | _ n ih =>
      cases cs with
      | nil => exact Or.inl (.separator .empty)
      | cons c cs =>
          have hshorter (v r : List Char) (hv : Separator v) (hsplit : c :: cs = v ++ r)
              (hlt : r.length < n) :
              Trailer (c :: cs) ∨
              ∃ w a r, c :: cs = w ++ a :: r ∧ Separator w ∧ opensTrivia a = false := by
            rw [hsplit]
            rcases ih _ hlt r rfl with htrailer | ⟨w, a, r', rfl, hw, ha⟩
            · exact Or.inl (htrailer.append hv)
            · exact Or.inr ⟨v ++ w, a, r', by simp, hv.append hw, ha⟩
          simp only [List.length_cons] at hn
          by_cases hblank : isBlank c = true
          · exact hshorter [c] cs (.blank hblank .empty) rfl (by omega)
          by_cases hmark : c = commentMark
          · subst hmark
            by_cases hline : '\n' ∈ cs
            · obtain ⟨body, r, rfl, hbody⟩ := List.eq_append_cons_of_mem hline
              simp only [List.length_append, List.length_cons] at hn
              exact hshorter (commentMark :: (body ++ ['\n'])) r
                (.comment hbody .empty) (by simp) (by omega)
            · exact Or.inl (.comment .empty hline)
          · exact Or.inr ⟨[], c, cs, rfl, .empty, by simp [opensTrivia, hblank, hmark]⟩

/-- A run is as long as the class goes, if what follows does not belong to the class. -/
theorem takeWhile_append_of_stop
    {p : Char → Bool} {front back : List Char}
    (hfront : ∀ a ∈ front, p a = true)
    (hback : ∀ a ∈ back.head?, p a = false) :
    (front ++ back).takeWhile p = front := by
  have hstop : back.takeWhile p = [] := by
    cases back with
    | nil => rfl
    | cons a r => simp [hback a rfl]
  rw [List.takeWhile_append_of_pos hfront, hstop, List.append_nil]

theorem dropWhile_append_of_stop
    {p : Char → Bool} {front back : List Char}
    (hfront : ∀ a ∈ front, p a = true)
    (hback : ∀ a ∈ back.head?, p a = false) :
    (front ++ back).dropWhile p = back := by
  have hsplit := List.takeWhile_append_dropWhile (p := p) (l := front ++ back)
  rw [takeWhile_append_of_stop hfront hback] at hsplit
  exact List.append_cancel_left hsplit

theorem head?_dropWhile_eq_false
    {p : Char → Bool} {cs : List Char} {a : Char}
    (h : a ∈ (cs.dropWhile p).head?) :
    p a = false := by
  have hnot := List.head?_dropWhile_not p cs
  rw [h] at hnot
  simpa using hnot

namespace Cursor

theorem skipWhile_eq_skip
    {c : Cursor} {p : Char → Bool} {front back : List Char}
    (hrest : c.rest = front ++ back)
    (hfront : ∀ a ∈ front, p a = true)
    (hback : ∀ a ∈ back.head?, p a = false) :
    c.skipWhile p = c.skip front.length := by
  rw [skipWhile, hrest, takeWhile_append_of_stop hfront hback]

theorem skipWhile_eq_self
    {c : Cursor} {p : Char → Bool}
    (h : ∀ a ∈ c.rest.head?, p a = false) :
    c.skipWhile p = c := by
  have hrest : c.rest = [] ++ c.rest := rfl
  rw [skipWhile_eq_skip hrest (by simp) h]
  exact skip_zero c

theorem skipWhile_advance
    {c : Cursor} {p : Char → Bool} {a : Char} {r : List Char}
    (hrest : c.rest = a :: r)
    (ha : p a = true) :
    c.advance.skipWhile p = c.skipWhile p := by
  simp [skipWhile, advance, skip_skip, hrest, ha, Nat.add_comm]

/-- In front of a comment mark the comment is passed over and the search goes on behind it. -/
theorem skipTrivia_of_head
    {c : Cursor}
    (h : c.rest.head? = some commentMark) :
    c.skipTrivia =
      (c.position :: c.skipComment.skipTrivia.1, c.skipComment.skipTrivia.2) := by
  have hblank : c.skipWhile isBlank = c := by
    apply skipWhile_eq_self
    intro a ha
    obtain rfl : commentMark = a := by simpa [h] using ha
    rfl
  rw [skipTrivia, hblank]
  simp [h]

theorem skipTrivia_eq_self
    {c : Cursor}
    (h : ∀ a ∈ c.rest.head?, opensTrivia a = false) :
    c.skipTrivia = ([], c) := by
  have hblank : c.skipWhile isBlank = c :=
    skipWhile_eq_self fun a ha => isBlank_eq_false_of_opensTrivia (h a ha)
  have hmark : ¬ c.rest.head? = some commentMark := fun hhead =>
    ne_commentMark_of_opensTrivia (h commentMark hhead) rfl
  rw [skipTrivia, hblank]
  simp [hmark]

theorem skipTrivia_advance
    {c : Cursor} {a : Char} {r : List Char}
    (hrest : c.rest = a :: r)
    (ha : isBlank a = true) :
    c.advance.skipTrivia = c.skipTrivia := by
  conv_lhs => rw [skipTrivia, skipWhile_advance hrest ha]
  conv_rhs => rw [skipTrivia]

theorem skip_of_rest_eq_nil
    {c : Cursor}
    (h : c.rest = [])
    (n : Nat) :
    c.skip n = c := by
  cases c
  simp_all [skip]

/-- No character of a comment is a newline. -/
theorem ne_newline_of_mem_comment
    {body : List Char} {a : Char}
    (hbody : '\n' ∉ body)
    (ha : a ∈ commentMark :: body) :
    decide (a ≠ '\n') = true := by
  rcases List.mem_cons.mp ha with rfl | ha
  · decide
  · simpa using fun h : a = '\n' => hbody (h ▸ ha)

theorem skipComment_eq_skip
    {c : Cursor} {body back : List Char}
    (hrest : c.rest = commentMark :: body ++ '\n' :: back)
    (hbody : '\n' ∉ body) :
    c.skipComment = c.skip (commentMark :: (body ++ ['\n'])).length := by
  have hback : ∀ a ∈ ('\n' :: back).head?, decide (a ≠ '\n') = false := by simp
  rw [skipComment, skipWhile_eq_skip hrest (fun a => ne_newline_of_mem_comment hbody) hback,
    advance, skip_skip]
  simp

/-- A comment without a newline goes up to the end. -/
theorem skipComment_eq_skip_of_end
    {c : Cursor} {body : List Char}
    (hrest : c.rest = commentMark :: body)
    (hbody : '\n' ∉ body) :
    c.skipComment = c.skip c.rest.length := by
  have happend : c.rest = commentMark :: body ++ [] := by simp [hrest]
  rw [skipComment, skipWhile_eq_skip happend (fun a => ne_newline_of_mem_comment hbody) (by simp),
    advance, skip_of_rest_eq_nil (by simp [hrest]), hrest]

/-- A separator is passed over, and the search goes on behind it. -/
theorem skipTrivia_separator
    {c : Cursor} {w r : List Char}
    (hw : Separator w)
    (hrest : c.rest = w ++ r) :
    (c.skip w.length).skipTrivia.2 = c.skipTrivia.2 := by
  induction hw generalizing c with
  | empty => simp
  | @blank a w ha _ ih =>
      have hadvance : c.advance.rest = w ++ r := by simp [advance, hrest]
      rw [← skipTrivia_advance hrest ha, ← ih hadvance, advance, skip_skip,
        List.length_cons, Nat.add_comm]
  | @comment body w hbody _ ih =>
      have hline : c.rest = commentMark :: body ++ '\n' :: (w ++ r) := by simp [hrest]
      have hhead : c.rest.head? = some commentMark := by simp [hline]
      have hskip := skipComment_eq_skip hline hbody
      have hbehind : c.skipComment.rest = w ++ r := by
        rw [hskip, skip_rest, hline]
        simp
      have hlength : (commentMark :: (body ++ '\n' :: w)).length =
          (commentMark :: (body ++ ['\n'])).length + w.length := by
        simp
        omega
      rw [skipTrivia_of_head hhead, ← ih hbehind, hskip, skip_skip, hlength]

/-- In front of a separator and a character that opens neither a blank nor a comment, the search
stops between the two. -/
theorem skipTrivia_eq_skip
    {c : Cursor} {w r : List Char}
    (hw : Separator w)
    (hrest : c.rest = w ++ r)
    (hr : ∀ a ∈ r.head?, opensTrivia a = false) :
    c.skipTrivia.2 = c.skip w.length := by
  rw [← skipTrivia_separator hw hrest, skipTrivia_eq_self]
  simpa [hrest] using hr

/-- A trailer is passed over up to the end. -/
theorem skipTrivia_trailer
    {c : Cursor}
    (h : Trailer c.rest) :
    c.skipTrivia.2 = c.skip c.rest.length := by
  generalize hrest : c.rest = w at h
  cases h with
  | separator hw =>
      have happend : c.rest = w ++ [] := by simp [hrest]
      exact skipTrivia_eq_skip hw happend (by simp)
  | @comment w body hw hbody =>
      have hbehind : (c.skip w.length).rest = commentMark :: body := by simp [hrest]
      have hhead : (c.skip w.length).rest.head? = some commentMark := by rw [hbehind]; rfl
      have hlength : (w ++ commentMark :: body).length =
          w.length + (c.skip w.length).rest.length := by
        rw [hbehind, List.length_append]
      have hend : (c.skip (w ++ commentMark :: body).length).rest = [] := by simp [hrest]
      rw [← skipTrivia_separator hw hrest, skipTrivia_of_head hhead,
        skipComment_eq_skip_of_end hbehind hbody, skip_skip, ← hlength, skipTrivia_eq_self]
      rw [hend]
      simp

end Cursor
end TokenStream
