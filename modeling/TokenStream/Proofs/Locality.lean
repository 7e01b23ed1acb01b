import TokenStream.Proofs.Places

/-!
# Reading is local

What is read depends on what was passed over and on one more character. Two sources that begin in
the same way are compared: as long as reading the one stays inside the part that they have in
common, reading the other gives the same, whatever follows there. A string without a closing mark
and a comment without a newline go on to the end of the source, and so are never inside.

**Results** a search that stops inside the common part comes to the same in both sources and stops
at the same place; so do any number of calls, and an error inside the common part is met by both.
-/

namespace TokenStream

theorem Position.offset_advanceBy (p : Position) (cs : List Char) :
    (p.advanceBy cs).offset = p.offset + Text.byteLength cs := by
  induction cs generalizing p with
  | nil => rfl
  | cons c cs ih =>
      have hadvance : (p.advance c).offset = p.offset + c.utf8Size := by
        unfold advance
        split <;> rfl
      rw [advanceBy_cons, ih, hadvance, Text.byteLength_cons, Nat.add_assoc]

namespace Cursor

/-- The cursors are at the same place, and behind it their texts are the same up to the offset
`limit`. -/
structure Agree (limit : Nat) (c d : Cursor) : Prop where
  position_eq : d.position = c.position
  exists_front : ∃ front x y : List Char, c.rest = front ++ x ∧ d.rest = front ++ y ∧
    c.position.offset + Text.byteLength front = limit

section Agree

variable {limit : Nat} {c d : Cursor}

theorem offset_le_skip (c : Cursor) (n : Nat) :
    c.position.offset ≤ (c.skip n).position.offset := by
  rw [skip_position, Position.offset_advanceBy]
  exact Nat.le_add_right _ _

theorem offset_le_scan (c : Cursor) :
    c.position.offset ≤ c.scan.cursor.position.offset := by
  obtain ⟨n, hn⟩ := c.exists_scan_eq_skip
  rw [hn]
  exact c.offset_le_skip n

/-- Behind what was passed over inside the common part, the texts go on with the same character. -/
theorem Agree.exists_next
    {used more : List Char}
    (h : c.Agree limit d)
    (hrest : c.rest = used ++ more)
    (hlt : (c.skip used.length).position.offset < limit) :
    ∃ (b : Char) (r r' : List Char), more = b :: r ∧ d.rest = used ++ b :: r' ∧
      (c.skip used.length).Agree limit (d.skip used.length) := by
  obtain ⟨hposition, front, x, y, hc, hd, hlimit⟩ := h
  have htake : c.rest.take used.length = used := by rw [hrest, List.take_left]
  have hused : (c.skip used.length).position.offset =
      c.position.offset + Text.byteLength used := by
    rw [skip_position, Position.offset_advanceBy, htake]
  rcases List.append_eq_append_iff.mp (hrest.symm.trans hc) with
    ⟨common, rfl, rfl⟩ | ⟨beyond, rfl, -⟩
  · rw [Text.byteLength_append] at hlimit
    cases common with
    | nil =>
        rw [Text.byteLength_nil] at hlimit
        omega
    | cons b common =>
        have hd' : d.rest = used ++ b :: (common ++ y) := by simp [hd]
        refine ⟨b, common ++ x, common ++ y, rfl, hd', ?_, b :: common, x, y, ?_, ?_, ?_⟩
        · rw [skip_position, skip_position, hposition, htake, hd', List.take_left]
        · rw [skip_rest, hrest, List.drop_left]
        · rw [skip_rest, hd', List.drop_left]
          rfl
        · rw [hused, Nat.add_assoc, hlimit]
  · rw [Text.byteLength_append] at hused
    omega

/-- **One search.** -/
theorem Agree.scan
    (h : c.Agree limit d)
    (hlt : c.scan.cursor.position.offset < limit) :
    d.scan.outcome = c.scan.outcome ∧ c.scan.cursor.Agree limit d.scan.cursor := by
  have hbegin := beginning c.rest
  generalize hrest : c.rest = cs at hbegin
  -- at the end of the text nothing is left of the common part
  have hend (hcursor : c.scan.cursor = c.skip c.rest.length) : False := by
    rw [hcursor] at hlt
    obtain ⟨_, _, _, hmore, _⟩ := h.exists_next (List.append_nil _).symm hlt
    cases hmore
  cases hbegin with
  | trailer hw => exact (hend (scan_of_trailer (hrest ▸ hw)).2).elim
  | openString hgap hl => exact (hend (scan_of_spellsOpen hrest hgap hl).2).elim
  | @token gap l rest t hgap hl hends =>
      obtain ⟨houtcome, hcursor⟩ := scan_of_spells hrest hgap hl hends
      rw [hcursor] at hlt
      have hused : c.rest = (gap ++ l) ++ rest := by rw [hrest, List.append_assoc]
      obtain ⟨b, r, r', rfl, hd, hagree⟩ := h.exists_next hused hlt
      have hends' : EndsBefore t l (b :: r') := hends
      rw [List.append_assoc] at hd
      obtain ⟨houtcome', hcursor'⟩ := scan_of_spells hd hgap hl hends'
      rw [houtcome, houtcome', hcursor, hcursor']
      exact ⟨rfl, hagree⟩
  | stuck hgap htrivia ha =>
      obtain ⟨houtcome, hcursor⟩ := scan_of_stuck hrest hgap htrivia ha
      rw [hcursor] at hlt
      obtain ⟨b, r, r', hmore, hd, hagree⟩ := h.exists_next hrest hlt
      obtain ⟨rfl, rfl⟩ := List.cons.inj hmore
      obtain ⟨houtcome', hcursor'⟩ := scan_of_stuck hd hgap htrivia ha
      rw [houtcome, houtcome', hcursor, hcursor', fail, fail, hagree.position_eq]
      exact ⟨rfl, hagree⟩

/-- An error is where the search stopped. -/
theorem position_of_scan_error
    {e : LexError}
    (h : c.scan.outcome = .error e) :
    e.position = c.scan.cursor.position := by
  have hfinds := c.finds_scan
  rw [h] at hfinds
  generalize c.scan.cursor = d at hfinds
  cases hfinds with
  | stuck => rfl

end Agree

end Cursor

namespace Reader

/-- The reader after the next token was asked for `n` times. -/
def afterReads (r : Reader) (n : Nat) : Reader :=
  (fun r : Reader => r.read.reader)^[n] r

theorem offset_le_afterReads (c : Cursor) (n : Nat) :
    c.position.offset ≤ ((ofCursor c).afterReads n).position.offset := by
  induction n generalizing c with
  | zero => exact le_rfl
  | succ n ih => exact c.offset_le_scan.trans (ih c.scan.cursor)

theorem slot_afterReads (c : Cursor) (n : Nat) :
    ((ofCursor c).afterReads n).slot = none := by
  induction n generalizing c with
  | zero => rfl
  | succ n ih => exact ih c.scan.cursor

/-- A reader that only takes goes on from its cursor alone. -/
theorem afterReads_eq_ofCursor (c : Cursor) (n : Nat) :
    (ofCursor c).afterReads n = ofCursor ((ofCursor c).afterReads n).cursor := by
  have hslot := slot_afterReads c n
  generalize (ofCursor c).afterReads n = r at hslot
  obtain ⟨cursor, slot⟩ := r
  obtain rfl : slot = none := hslot
  rfl

section Agree

variable {limit : Nat} {c d : Cursor}

/-- **Calls in sequence.** -/
theorem agree_afterReads
    {n : Nat}
    (h : c.Agree limit d)
    (hlt : ((ofCursor c).afterReads n).position.offset < limit) :
    (∀ i < n,
      ((ofCursor d).afterReads i).read.result = ((ofCursor c).afterReads i).read.result ∧
      ((ofCursor d).afterReads (i + 1)).position =
        ((ofCursor c).afterReads (i + 1)).position) ∧
    ((ofCursor c).afterReads n).cursor.Agree limit ((ofCursor d).afterReads n).cursor := by
  induction n generalizing c d with
  | zero => exact ⟨fun i hi => absurd hi (Nat.not_lt_zero i), h⟩
  | succ n ih =>
      have hfirst : c.scan.cursor.position.offset < limit :=
        (offset_le_afterReads c.scan.cursor n).trans_lt hlt
      obtain ⟨houtcome, hagree⟩ := h.scan hfirst
      obtain ⟨hcalls, hlast⟩ := ih hagree hlt
      refine ⟨?_, hlast⟩
      intro i hi
      cases i with
      | zero => exact ⟨houtcome, hagree.position_eq⟩
      | succ i => exact hcalls i (Nat.lt_of_succ_lt_succ hi)

theorem agree_afterReads_error
    {n : Nat} {e : LexError}
    (h : c.Agree limit d)
    (herror : ((ofCursor c).afterReads n).read.result = .error e)
    (hlt : e.position.offset < limit) :
    ((ofCursor d).afterReads n).read.result = .error e := by
  rw [afterReads_eq_ofCursor] at herror ⊢
  generalize hc : ((ofCursor c).afterReads n).cursor = c' at herror
  have hscan : c'.scan.outcome = .error e := herror
  rw [Cursor.position_of_scan_error hscan] at hlt
  have hreads : ((ofCursor c).afterReads n).position.offset < limit := by
    rw [position, hc]
    exact c'.offset_le_scan.trans_lt hlt
  have hagree := (agree_afterReads h hreads).2
  rw [hc] at hagree
  exact (hagree.scan hlt).1.trans hscan

/-- An error comes behind all that was read before it, and in front of a character. -/
theorem offset_of_readAll_error
    {e : LexError}
    (herror : (ofCursor c).readAll.error = some e) :
    c.position.offset ≤ e.position.offset ∧ e.position.offset < c.finish.offset := by
  induction hn : c.rest.length using Nat.strong_induction_on generalizing c with
  | _ n ih =>
      match hscan : c.scan.outcome with
      | .ok (some t) =>
          rw [(readAll_of_token hscan).2] at herror
          obtain ⟨hle, hlt⟩ := ih _ (hn ▸ Cursor.length_scan_rest_lt hscan) herror rfl
          rw [Cursor.finish_scan] at hlt
          exact ⟨c.offset_le_scan.trans hle, hlt⟩
      | .ok none =>
          rw [(readAll_of_end hscan).2] at herror
          cases herror
      | .error e' =>
          rw [(readAll_of_error hscan).2] at herror
          obtain rfl := Option.some.inj herror
          have hfinds := c.finds_scan
          rw [hscan] at hfinds
          generalize c.scan.cursor = d at hfinds
          cases hfinds with
          | @stuck gap rest a hrest hgap htrivia ha =>
              have hpos : 0 < a.utf8Size := a.utf8Size_pos
              refine ⟨c.offset_le_skip gap.length, ?_⟩
              simp only [Cursor.fail, Cursor.skip_position, Cursor.finish, hrest, List.take_left,
                Position.offset_advanceBy, Text.byteLength_append, Text.byteLength_cons]
              omega

/-- **Taking all tokens** up to an error. -/
theorem agree_readAll_error
    {e : LexError}
    (h : c.Agree limit d)
    (herror : (ofCursor c).readAll.error = some e)
    (hlt : e.position.offset < limit) :
    (ofCursor d).readAll.tokens = (ofCursor c).readAll.tokens ∧
      (ofCursor d).readAll.error = some e := by
  induction hn : c.rest.length using Nat.strong_induction_on generalizing c d with
  | _ n ih =>
      match hscan : c.scan.outcome with
      | .ok (some t) =>
          obtain ⟨htokens, htail⟩ := readAll_of_token hscan
          rw [htail] at herror
          have hbefore := (offset_of_readAll_error herror).1
          obtain ⟨houtcome, hagree⟩ := h.scan (hbefore.trans_lt hlt)
          obtain ⟨htokens', htail'⟩ := readAll_of_token (houtcome.trans hscan)
          obtain ⟨ihtokens, iherror⟩ :=
            ih _ (hn ▸ Cursor.length_scan_rest_lt hscan) hagree herror rfl
          exact ⟨by rw [htokens, htokens', ihtokens], htail'.trans iherror⟩
      | .ok none =>
          rw [(readAll_of_end hscan).2] at herror
          cases herror
      | .error e' =>
          obtain ⟨htokens, hmet⟩ := readAll_of_error hscan
          rw [hmet] at herror
          obtain rfl := Option.some.inj herror
          rw [Cursor.position_of_scan_error hscan] at hlt
          obtain ⟨htokens', hmet'⟩ := readAll_of_error ((h.scan hlt).1.trans hscan)
          exact ⟨htokens'.trans htokens.symm, hmet'⟩

end Agree

end Reader

theorem Cursor.agree_ofSource (front x y : List Char) :
    (ofSource (front ++ x)).Agree (Text.byteLength front) (ofSource (front ++ y)) :=
  ⟨rfl, front, x, y, rfl, rfl, Nat.zero_add _⟩

/-- **Locality.** Two sources begin with the same text. If a number of calls leave the reader of the
one inside that text, they give the same for the other, tokens or not, with the same place behind
each; and an error of the next call inside that text is met for the other as well. So an error in a
source, and the tokens before it, stay what they are whatever is written behind the source. -/
theorem reading_is_local :
    (∀ (front x y : List Char) (k : Nat),
      let r := Reader.ofSource (front ++ x)
      let r' := Reader.ofSource (front ++ y)
      ((r.afterReads k).position.offset < Text.byteLength front →
        ∀ i < k, (r'.afterReads i).read.result = (r.afterReads i).read.result ∧
          (r'.afterReads (i + 1)).position = (r.afterReads (i + 1)).position) ∧
      (∀ e, (r.afterReads k).read.result = .error e →
        e.position.offset < Text.byteLength front →
        (r'.afterReads k).read.result = .error e)) ∧
    (∀ (source more : List Char) (e : LexError), tokenize source = .error e →
      tokenize (source ++ more) = .error e ∧
      (Reader.ofSource (source ++ more)).readAll.tokens =
        (Reader.ofSource source).readAll.tokens) := by
  constructor
  · intro front x y k r r'
    have hagree := Cursor.agree_ofSource front x y
    exact ⟨fun hlt => (Reader.agree_afterReads hagree hlt).1,
      fun e herror hlt => Reader.agree_afterReads_error hagree herror hlt⟩
  · intro source more e htokenize
    have herror := Reading.result_eq_error_iff.mp htokenize
    have hlt : e.position.offset < Text.byteLength source := by
      have hfinish := (Reader.offset_of_readAll_error herror).2
      rwa [Cursor.finish, Position.offset_advanceBy, Cursor.ofSource, Position.start,
        Nat.zero_add] at hfinish
    have hagree := Cursor.agree_ofSource source [] more
    rw [List.append_nil] at hagree
    obtain ⟨htokens, hmet⟩ := Reader.agree_readAll_error hagree herror hlt
    exact ⟨Reading.result_eq_error_iff.mpr hmet, htokens⟩

theorem reading_is_local_operator :
    ((Reader.ofSource ['a', '+', '+', 'b']).afterReads 1).position.offset <
      Text.byteLength ['a', '+'] ∧
    ((Reader.ofSource ['a', '+', ' ', '@']).afterReads 0).read.result =
      .ok (some (.identifier ['a'])) ∧
    tokenize ['a', '+', ' ', '@'] = .error ⟨.unexpected '@', ⟨1, 3, 3⟩⟩ ∧
    tokenize ['a', '+', ' ', '@', '"'] = .error ⟨.unexpected '@', ⟨1, 3, 3⟩⟩ := by
  have hoffset : ((Reader.ofSource ['a', '+', '+', 'b']).afterReads 1).position.offset <
      Text.byteLength ['a', '+'] := by
    decide +kernel
  have hfirst : ((Reader.ofSource ['a', '+', '+', 'b']).afterReads 0).read.result =
      .ok (some (.identifier ['a'])) := by
    decide +kernel
  have herror : tokenize ['a', '+', ' ', '@'] = .error ⟨.unexpected '@', ⟨1, 3, 3⟩⟩ := by
    decide +kernel
  have hcalls := (reading_is_local.1 ['a', '+'] ['+', 'b'] [' ', '@'] 1).1 hoffset
  exact ⟨hoffset, (hcalls 0 Nat.zero_lt_one).1.trans hfirst, herror,
    (reading_is_local.2 _ ['"'] _ herror).1⟩

end TokenStream
