import TokenStream.Alphabet
import TokenStream.Cursor

/-!
# Blanks and comments

What stands between tokens and is passed over.

**Algorithm** a run of blanks is passed over; if a comment follows, it is passed over with the
newline that ends it, and the search goes on behind it. A comment that is not ended by a newline
goes on to the end of the text.

**Results** passing over a comment makes what is ahead shorter, so that the search comes to an
end.
-/

namespace TokenStream
namespace Cursor

/-- The cursor behind a comment and the newline that ends it. -/
def skipComment (c : Cursor) : Cursor :=
  (c.skipWhile (· ≠ '\n')).advance

theorem length_skipComment_rest_lt (c : Cursor) (h : c.rest.head? = some commentMark) :
    c.skipComment.rest.length < c.rest.length := by
  cases hrest : c.rest with
  | nil => simp [hrest] at h
  | cons a r =>
      have hmark : a = commentMark := by simpa [hrest] using h
      have hnewline : decide (commentMark ≠ '\n') = true := by decide
      have hle : (r.dropWhile (· ≠ '\n')).length ≤ r.length :=
        (List.dropWhile_sublist _).length_le
      subst hmark
      simp only [skipComment, advance, skip_rest, skipWhile_rest, hrest, List.dropWhile_cons,
        hnewline, if_true, List.length_drop, List.length_cons]
      omega

/-- Passes over blanks and comments. Gives the places of the comments and the cursor behind. -/
def skipTrivia (c : Cursor) : List Position × Cursor :=
  let d := c.skipWhile isBlank
  if _h : d.rest.head? = some commentMark then
    let (marks, last) := d.skipComment.skipTrivia
    (d.position :: marks, last)
  else ([], d)
termination_by c.rest.length
decreasing_by
  have hlt := length_skipComment_rest_lt (c.skipWhile isBlank) _h
  have hle := length_skipWhile_rest_le c isBlank
  omega

end Cursor
end TokenStream
