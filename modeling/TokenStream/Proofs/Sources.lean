import TokenStream.Config.Load
import TokenStream.Proofs.Decoding

/-!
# Sources of a run

A run reads the file that is named on the command line, or the stream of input. A path that is the
same as a dash stands for the stream of input, and two paths are the same if they lead through the
same names; a slash at the end leads nowhere, nor does a single dot behind a slash.

**Input** a world to read from, and the path on the command line if there is one.

**Results** which paths are the same as a dash, and which text a run reads; it reads one exactly if
the bytes are its UTF-8 form.
-/

namespace TokenStream

namespace Path

/-- The paths that are the same as a dash: behind it, nothing leads to another place. -/
inductive Dash : List Char → Prop
  | dash : Dash ['-']
  | slash
      {path : List Char}
      (h : Dash path) :
      Dash (path ++ ['/'])
  | here
      {path : List Char}
      (h : Dash path) :
      Dash (path ++ ['/', '.'])

section Names

theorem names_ne_nil (path : List Char) : names path ≠ [] := by
  cases path with
  | nil => simp [names]
  | cons c path =>
      rw [names]
      split
      · simp
      · split <;> simp

theorem names_append_slash (path more : List Char) :
    names (path ++ '/' :: more) = names path ++ names more := by
  induction path with
  | nil => simp [names]
  | cons c path ih =>
      rw [List.cons_append, names, names, ih]
      split
      · rfl
      · cases hnames : names path with
        | nil => exact absurd hnames (names_ne_nil path)
        | cons name rest => rfl

/-- A path is its names with a slash in front of each but the first. -/
theorem eq_append_of_names
    {path name : List Char} {rest : List (List Char)}
    (h : names path = name :: rest) :
    path = name ++ rest.flatMap ('/' :: ·) := by
  induction path generalizing name rest with
  | nil =>
      cases h
      rfl
  | cons c path ih =>
      cases hnames : names path with
      | nil => exact absurd hnames (names_ne_nil path)
      | cons first more =>
          rw [names, hnames] at h
          split at h
          · next hc =>
              cases h
              rw [ih hnames, hc]
              rfl
          · cases h
            rw [ih hnames]
            rfl

theorem isDash_append_slash
    {path name : List Char}
    (h : isDash path = true)
    (hnames : names name = [name])
    (hname : isHere name = true) :
    isDash (path ++ '/' :: name) = true := by
  unfold isDash at h ⊢
  rw [names_append_slash, hnames]
  cases hpath : names path with
  | nil => exact absurd hpath (names_ne_nil path)
  | cons first rest =>
      rw [hpath] at h
      simp only [List.cons_append, List.all_append, List.all_cons, List.all_nil, hname,
        Bool.and_true]
      exact h

/-- What stays where it is may be put behind a dash. -/
theorem Dash.flatMap
    {rest : List (List Char)}
    (h : ∀ name ∈ rest, isHere name = true)
    {path : List Char}
    (hpath : Dash path) :
    Dash (path ++ rest.flatMap ('/' :: ·)) := by
  induction rest generalizing path with
  | nil => simpa using hpath
  | cons name rest ih =>
      obtain ⟨hname, hrest⟩ := List.forall_mem_cons.mp h
      rw [List.flatMap_cons, ← List.append_assoc]
      apply ih hrest
      simp only [isHere, Bool.or_eq_true, decide_eq_true_eq] at hname
      rcases hname with rfl | rfl
      · exact .slash hpath
      · exact .here hpath

/-- The test for a dash accepts just the paths that are the same as one. -/
theorem isDash_iff (path : List Char) :
    isDash path = true ↔ Dash path := by
  constructor
  · intro h
    unfold isDash at h
    cases hnames : names path with
    | nil => exact absurd hnames (names_ne_nil path)
    | cons name rest =>
        simp only [hnames, Bool.and_eq_true, decide_eq_true_eq, List.all_eq_true] at h
        obtain ⟨rfl, hrest⟩ := h
        rw [eq_append_of_names hnames]
        exact Dash.dash.flatMap hrest
  · intro h
    induction h with
    | dash => decide
    | slash _ ih => exact isDash_append_slash ih (by decide) (by decide)
    | here _ ih => exact isDash_append_slash ih (by decide) (by decide)

end Names
end Path

section Sources

/-- What a run takes for its source: the stream of input if no file is named or the file is a dash,
else the file, in UTF-8. -/
inductive SourceOf (world : World) : Option (List Char) → List Char → Prop
  | stdin
      {source : List Char}
      (hbytes : world.stdin = (Text.utf8 source).toByteArray) :
      SourceOf world none source
  | dash
      {path source : List Char}
      (hpath : Path.Dash path)
      (hbytes : world.stdin = (Text.utf8 source).toByteArray) :
      SourceOf world (some path) source
  | file
      {path source : List Char}
      (hpath : ¬ Path.Dash path)
      (hbytes : world.readFile path = .ok (Text.utf8 source).toByteArray) :
      SourceOf world (some path) source

variable {world : World} {source : List Char}

theorem Text.decode_eq_ok_iff {bytes : ByteArray} {cs : List Char} :
    Text.decode bytes = .ok cs ↔ bytes = (Text.utf8 cs).toByteArray := by
  constructor
  · intro h
    unfold Text.decode String.fromUTF8? at h
    split_ifs at h with hvalid
    cases h
    exact (String.utf8Encode_toList (b := String.fromUTF8 bytes hvalid)).symm
  · rintro rfl
    exact Text.decode_utf8 cs

theorem mapError_eq_ok_iff
    {α β γ : Type} {f : α → β} {x : Except α γ} {a : γ} :
    x.mapError f = .ok a ↔ x = .ok a := by
  cases x <;> simp [Except.mapError]

theorem readSource_eq_ok_iff (file : Option (List Char)) :
    readSource world file = .ok source ↔ SourceOf world file source := by
  cases file with
  | none =>
      rw [readSource, mapError_eq_ok_iff, Text.decode_eq_ok_iff]
      exact ⟨.stdin, fun | .stdin hbytes => hbytes⟩
  | some path =>
      by_cases hpath : Path.isDash path = true
      · have hdash := (Path.isDash_iff path).mp hpath
        rw [readSource, if_pos hpath, mapError_eq_ok_iff, Text.decode_eq_ok_iff]
        constructor
        · exact .dash hdash
        · rintro (_ | ⟨_, hbytes⟩ | ⟨hnot, _⟩)
          · exact hbytes
          · exact absurd hdash hnot
      · have hnot : ¬ Path.Dash path := fun h => hpath ((Path.isDash_iff path).mpr h)
        rw [readSource, if_neg hpath, mapError_eq_ok_iff, World.readText]
        constructor
        · intro h
          cases hread : world.readFile path with
          | error cause => simp [hread] at h
          | ok bytes =>
              simp only [hread, Text.decode_eq_ok_iff] at h
              exact .file hnot (h ▸ hread)
        · rintro (_ | ⟨hdash, _⟩ | ⟨_, hread⟩)
          · exact absurd hdash hnot
          · simp only [hread, Text.decode_utf8]

end Sources

end TokenStream
