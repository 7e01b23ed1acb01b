import TokenStream.Excerpt
import Mathlib.Tactic

/-!
# Lines of a text

A text in which every line ends with a newline falls into these lines when it is split at newlines,
with an empty piece behind the last one. The lines that are shown to a reader are told apart in
another way: a carriage return in front of a newline belongs to the end of the line, and a newline
at the end of the text does not open another line.

**Results** the pieces of a text of ended lines, the lines of a text one by one, and the line on
which a character stands, with the number and the column that a place behind a front part has.
-/

namespace TokenStream
namespace Text

section Pieces

/-- Ended lines are split into what their insides are split into. -/
theorem splitOn_flatMap_ended
    {α : Type} (line : α → List Char) (xs : List α) :
    (xs.flatMap fun x => line x ++ ['\n']).splitOn '\n' =
      xs.flatMap (fun x => (line x).splitOn '\n') ++ [[]] := by
  induction xs with
  | nil => rfl
  | cons x xs ih =>
      rw [List.flatMap_cons, List.append_assoc, List.singleton_append,
        List.splitOn_append_cons_self, ih, List.flatMap_cons, List.append_assoc]

theorem flatMap_splitOn
    {α : Type} {line : α → List Char} {xs : List α}
    (h : ∀ x ∈ xs, '\n' ∉ line x) :
    xs.flatMap (fun x => (line x).splitOn '\n') = xs.map line := by
  induction xs with
  | nil => rfl
  | cons x xs ih =>
      obtain ⟨hx, hxs⟩ := List.forall_mem_cons.mp h
      rw [List.flatMap_cons, List.splitOn_eq_singleton hx, ih hxs, List.map_cons,
        List.singleton_append]

/-- There is one piece more than there are newlines. -/
theorem length_splitOn_newline (cs : List Char) :
    (cs.splitOn '\n').length = cs.count '\n' + 1 := by
  induction cs with
  | nil => rfl
  | cons c cs ih =>
      rw [List.splitOn_cons_eq_if_modifyHead, List.count_cons]
      split
      · simp [ih]
      · simp [ih]

theorem length_flatMap_splitOn
    {α : Type} (line : α → List Char) (xs : List α) :
    (xs.flatMap fun x => (line x).splitOn '\n').length =
      xs.length + (xs.map fun x => (line x).count '\n').sum := by
  induction xs with
  | nil => rfl
  | cons x xs ih =>
      rw [List.flatMap_cons, List.length_append, length_splitOn_newline, ih, List.map_cons,
        List.sum_cons, List.length_cons]
      omega

end Pieces

/-- A line without the carriage return at its end. -/
def withoutReturn (line : List Char) : List Char :=
  if line.getLast? = some '\r' then line.dropLast else line

theorem withoutReturn_cons
    {line : List Char}
    (h : line ≠ [])
    (c : Char) :
    withoutReturn (c :: line) = c :: withoutReturn line := by
  unfold withoutReturn
  rw [List.getLast?_cons_of_ne_nil h, List.dropLast_cons_of_ne_nil h]
  split <;> rfl

section Lines

variable {line front back : List Char} {c : Char}

/-- A line that is ended by a newline. -/
theorem lines_append_newline
    (h : '\n' ∉ line)
    (rest : List Char) :
    lines (line ++ '\n' :: rest) = withoutReturn line :: lines rest := by
  induction line with
  | nil => simp [lines, withoutReturn]
  | cons c line ih =>
      rw [List.mem_cons, not_or] at h
      obtain ⟨hc, hline⟩ := h
      rw [List.cons_append, lines, if_neg (Ne.symm hc)]
      cases line with
      | nil =>
          by_cases hreturn : c = '\r'
          · simp [hreturn, lines, withoutReturn]
          · simp [hreturn, lines, withoutReturn]
      | cons d line =>
          have hrest := ih hline
          rw [List.cons_append] at hrest
          have hd : d ≠ '\n' := fun h => hline (h ▸ List.mem_cons_self)
          simp [hrest, hd, withoutReturn_cons]

/-- A line that ends with the text. -/
theorem lines_of_notMem
    (h : '\n' ∉ line)
    (hne : line ≠ []) :
    lines line = [line] := by
  induction line with
  | nil => exact absurd rfl hne
  | cons c line ih =>
      rw [List.mem_cons, not_or] at h
      obtain ⟨hc, hline⟩ := h
      rw [lines, if_neg (Ne.symm hc)]
      cases line with
      | nil => simp [lines]
      | cons d line =>
          have hd : d ≠ '\n' := fun h => hline (h ▸ List.mem_cons_self)
          simp [ih hline, hd]

theorem newline_notMem_lines (cs : List Char) :
    ∀ line ∈ lines cs, '\n' ∉ line := by
  induction cs with
  | nil => simp [lines]
  | cons c cs ih =>
      rw [lines]
      split_ifs with hnewline hreturn
      · exact List.forall_mem_cons.mpr ⟨List.not_mem_nil, ih⟩
      · exact ih
      · cases hlines : lines cs with
        | nil => simp [Ne.symm hnewline]
        | cons line rest =>
            rw [hlines] at ih
            obtain ⟨hline, hrest⟩ := List.forall_mem_cons.mp ih
            refine List.forall_mem_cons.mpr ⟨?_, hrest⟩
            simp [Ne.symm hnewline, hline]

/-- A front part of ended lines falls into lines of its own, one for each newline. -/
theorem exists_lines_append
    (h : ∀ a ∈ front.getLast?, a = '\n') :
    ∃ before : List (List Char), before.length = front.count '\n' ∧
      ∀ rest, lines (front ++ rest) = before ++ lines rest := by
  -- by the length: a line is taken away with its newline
  induction hn : front.length using Nat.strong_induction_on generalizing front with
  | _ n ih =>
      by_cases hmem : '\n' ∈ front
      · obtain ⟨line, tail, rfl, hline⟩ := List.eq_append_cons_of_mem hmem
        have htail : ∀ a ∈ tail.getLast?, a = '\n' := by
          intro a ha
          apply h
          rw [List.getLast?_append, List.getLast?_cons, ha]
          rfl
        have hshorter : tail.length < n := by
          rw [← hn, List.length_append, List.length_cons]
          omega
        obtain ⟨before, hlength, hbefore⟩ := ih tail.length hshorter htail rfl
        refine ⟨withoutReturn line :: before, ?_, ?_⟩
        · rw [List.length_cons, hlength, List.count_append, List.count_cons_self,
            List.count_eq_zero_of_not_mem hline, Nat.zero_add]
        · intro rest
          rw [List.append_assoc, List.cons_append, lines_append_newline hline, hbefore,
            List.cons_append]
      · obtain rfl : front = [] := by
          by_contra hne
          have hlast := List.getLast?_eq_getLast_of_ne_nil hne
          exact hmem ((h _ hlast) ▸ List.getLast_mem hne)
        exact ⟨[], rfl, fun rest => rfl⟩

/-- The line that a character begins to which `front` has led: the character stands in it behind
`front`, unless it is a carriage return that ends the line. -/
theorem exists_line_of_char
    (hfront : '\n' ∉ front)
    (hc : c ≠ '\n')
    (back : List Char) :
    ∃ first after, lines (front ++ c :: back) = first :: after ∧
      (¬ (c = '\r' ∧ back.head? = some '\n') → first[front.length]? = some c) ∧
      (c = '\r' ∧ back.head? = some '\n' → first.length = front.length) := by
  by_cases hmem : '\n' ∈ back
  · obtain ⟨inside, rest, rfl, hinside⟩ := List.eq_append_cons_of_mem hmem
    have htext : front ++ c :: (inside ++ '\n' :: rest) =
        (front ++ c :: inside) ++ '\n' :: rest := by simp
    have hline : '\n' ∉ front ++ c :: inside := by
      simp [hfront, Ne.symm hc, hinside]
    refine ⟨withoutReturn (front ++ c :: inside), lines rest, ?_, ?_, ?_⟩
    · rw [htext, lines_append_newline hline]
    · intro hkept
      cases inside with
      | nil =>
          have hreturn : c ≠ '\r' := fun h => hkept ⟨h, rfl⟩
          simp [withoutReturn, hreturn]
      | cons d inside =>
          unfold withoutReturn
          split
          · rw [List.dropLast_append_of_ne_nil (List.cons_ne_nil _ _),
              List.dropLast_cons_of_ne_nil (List.cons_ne_nil _ _)]
            simp
          · simp
    · rintro ⟨rfl, hhead⟩
      cases inside with
      | nil => simp [withoutReturn]
      | cons d inside =>
          obtain rfl : d = '\n' := by simpa using hhead
          exact absurd List.mem_cons_self hinside
  · have hline : '\n' ∉ front ++ c :: back := by
      simp [hfront, Ne.symm hc, hmem]
    refine ⟨front ++ c :: back, [], lines_of_notMem hline (by simp), fun _ => by simp, ?_⟩
    rintro ⟨_, hhead⟩
    exact absurd (List.mem_of_head? hhead) hmem

end Lines

end Text
end TokenStream
