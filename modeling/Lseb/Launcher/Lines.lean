import Lseb.Launcher.Wire

/-!
# Lines in pieces

A line is read as it was written, however the text is divided into reads and
whether or not they are interrupted; what follows it stays for the next line.
-/

namespace Lseb

open Foundation Wire

/-- A connection after a call that only reads, with the text that is left. -/
structure Wire.Listened (wire wire' : Wire) (text : CString) : Prop where
  carries : wire'.Carries text
  writes : wire'.writes = wire.writes
  written : wire'.written = wire.written

theorem Wire.Listened.trans {wire middle wire' : Wire} {between text : CString}
    (first : wire.Listened middle between) (second : middle.Listened wire' text) :
    wire.Listened wire' text :=
  ⟨second.carries, second.writes.trans first.writes, second.written.trans first.written⟩

namespace Pmiu

variable {wire : Wire} {reads : List FdRead} {ch : Char} {line body text : CString}
  {room : ℕ}

theorem nextRead_nil (gives : Gives reads []) : nextRead reads = (none, []) := by
  generalize nothing : ([] : CString) = text at gives
  induction gives with
  | nil => rfl
  | data => cases nothing
  | interrupted _ ih => exact ih nothing

theorem nextRead_cons (gives : Gives reads (ch :: text)) :
    ∃ rest later reads', nextRead reads = (some (.data ch rest), reads') ∧
      Gives reads' later ∧ text = rest ++ later := by
  generalize some_text : ch :: text = given at gives
  induction gives with
  | nil => cases some_text
  | data later =>
    cases some_text
    exact ⟨_, _, _, rfl, later, rfl⟩
  | interrupted _ ih => exact ih some_text

theorem fetch_nil (carries : wire.Carries []) : fetch wire = .error (.fault "read") wire := by
  obtain ⟨later, gives, nothing⟩ := carries
  obtain ⟨empty, rfl⟩ := List.append_eq_nil_iff.mp nothing.symm
  rw [fetch, estate_get_bind, empty, nextRead_nil gives]
  rfl

theorem fetch_cons (carries : wire.Carries (ch :: text)) :
    ∃ wire', fetch wire = .ok (.char ch) wire' ∧ wire.Listened wire' text := by
  obtain ⟨later, gives, split⟩ := carries
  rw [fetch, estate_get_bind]
  cases stored : wire.buffered with
  | cons first rest =>
    rw [stored] at split
    cases split
    exact ⟨{ wire with buffered := rest }, rfl, ⟨later, gives, rfl⟩, rfl, rfl⟩
  | nil =>
    rw [stored, List.nil_append] at split
    subst split
    obtain ⟨rest, more, reads, next, left, rfl⟩ := nextRead_cons gives
    rw [next]
    exact ⟨_, rfl, ⟨more, left, rfl⟩, rfl, rfl⟩

/-- Characters that end no line are read one after the other. -/
theorem readlineLoop_body (inside : '\n' ∉ body) (carries : wire.Carries (body ++ text)) :
    ∃ wire', readlineLoop (body.length + room) line wire = readlineLoop room (line ++ body) wire' ∧
      wire.Listened wire' text := by
  induction body generalizing line wire with
  | nil => exact ⟨wire, by simp, carries, rfl, rfl⟩
  | cons c body ih =>
    obtain ⟨differs, inside⟩ := not_or.mp (mt List.mem_cons.mpr inside)
    obtain ⟨middle, fetched, listened⟩ := fetch_cons carries
    obtain ⟨wire', read, later⟩ := @ih middle (line ++ [c]) inside listened.carries
    refine ⟨wire', ?_, listened.trans later⟩
    rw [List.length_cons, Nat.add_right_comm, readlineLoop, bind_of_ok fetched]
    dsimp only
    rw [if_neg (Ne.symm differs), read, List.append_assoc, List.singleton_append]

theorem readlineLoop_line (inside : '\n' ∉ body) (short : body.length < room)
    (carries : wire.Carries (body ++ '\n' :: text)) :
    ∃ wire', readlineLoop room line wire = .ok (some (line ++ (body ++ ['\n']))) wire' ∧
      wire.Listened wire' text := by
  obtain ⟨room, rfl⟩ := Nat.exists_eq_add_of_lt short
  obtain ⟨middle, read, listened⟩ := @readlineLoop_body _ line body _ (room + 1) inside carries
  obtain ⟨wire', fetched, last⟩ := fetch_cons listened.carries
  refine ⟨wire', ?_, listened.trans last⟩
  rw [Nat.add_assoc, read, readlineLoop, bind_of_ok fetched, ← List.append_assoc]
  rfl

/-- Without the end of a line, as much is read as there is room for. -/
theorem readlineLoop_full (inside : '\n' ∉ body) (carries : wire.Carries (body ++ text)) :
    ∃ wire', readlineLoop body.length line wire = .ok (some (line ++ body)) wire' ∧
      wire.Listened wire' text := by
  obtain ⟨wire', read, listened⟩ := @readlineLoop_body _ line body _ 0 inside carries
  exact ⟨wire', read, listened⟩

/-- With neither, the call waits for more. -/
theorem readlineLoop_blocked (inside : '\n' ∉ body) (short : body.length < room)
    (carries : wire.Carries body) :
    ∃ wire', readlineLoop room line wire = .error (.fault "read") wire' ∧
      wire.Listened wire' [] := by
  obtain ⟨room, rfl⟩ := Nat.exists_eq_add_of_lt short
  rw [← List.append_nil body] at carries
  obtain ⟨wire', read, listened⟩ := @readlineLoop_body _ line body _ (room + 1) inside carries
  refine ⟨wire', ?_, listened⟩
  rw [Nat.add_assoc, read, readlineLoop, bind_of_error (fetch_nil listened.carries)]

/-- The next line is read whole. -/
theorem readline_line (whole : Line line) (carries : wire.Carries (line ++ text)) :
    ∃ wire', readline maxLine wire = .ok (some line) wire' ∧ wire.Listened wire' text := by
  obtain ⟨⟨body, rfl, inside⟩, short⟩ := whole
  rw [List.length_append, List.length_singleton] at short
  rw [List.append_assoc, List.singleton_append] at carries
  exact readlineLoop_line inside (Nat.lt_sub_of_add_lt short) carries

theorem readline_blocked (inside : '\n' ∉ text) (short : text.length < maxLine - 1)
    (carries : wire.Carries text) : ∃ wire',
    readline maxLine wire = .error (.fault "read") wire' ∧ wire.Listened wire' [] :=
  readlineLoop_blocked inside short carries

/-- What one call returns: a line, or the first characters of a longer one. -/
def Piece (piece : CString) : Prop :=
  Line piece ∨ '\n' ∉ piece ∧ piece.length = maxLine - 1

theorem Piece.ne_nil {piece : CString} (given : Piece piece) : piece ≠ [] := by
  rintro rfl
  rcases given with ⟨⟨body, same, _⟩, _⟩ | ⟨_, length⟩
  · simp at same
  · cases length

/-- By induction on the length of a text, it is cut into pieces and an unfinished one. -/
theorem exists_pieces (text : CString) : ∃ (pieces : List CString) (tail : CString),
    text = pieces.flatten ++ tail ∧ (∀ piece ∈ pieces, Piece piece) ∧ '\n' ∉ tail ∧
    tail.length < maxLine - 1 := by
  induction length : text.length using Nat.strongRecOn generalizing text with
  | _ n ih =>
    subst length
    have cut : ∀ piece rest, text = piece ++ rest → Piece piece →
        ∃ (pieces : List CString) (tail : CString), text = pieces.flatten ++ tail ∧
          (∀ piece ∈ pieces, Piece piece) ∧ '\n' ∉ tail ∧ tail.length < maxLine - 1 := by
      intro piece rest split given
      have positive := List.length_pos_iff.mpr given.ne_nil
      have shorter : rest.length < text.length := by
        rw [split, List.length_append]
        omega
      obtain ⟨pieces, tail, later, others, inside, short⟩ := ih rest.length shorter rest rfl
      refine ⟨piece :: pieces, tail, ?_, List.forall_mem_cons.mpr ⟨given, others⟩, inside, short⟩
      rw [split, later, List.flatten_cons, List.append_assoc]
    obtain ⟨word, rest, split, within, delimited⟩ := exists_word (· == '\n') text
    have inside : '\n' ∉ word := fun member => by simpa using within _ member
    by_cases short : word.length < maxLine - 1
    · cases rest with
      | nil => exact ⟨[], word, by simpa using split, by simp, inside, short⟩
      | cons c rest =>
        obtain rfl : c = '\n' := by simpa using delimited
        refine cut (word ++ ['\n']) rest (by simp [split]) (.inl ⟨⟨word, rfl, inside⟩, ?_⟩)
        rw [List.length_append, List.length_singleton]
        omega
    · refine cut (word.take (maxLine - 1)) (word.drop (maxLine - 1) ++ rest) ?_ (.inr ⟨?_, ?_⟩)
      · rw [← List.append_assoc, List.take_append_drop, split]
      · exact fun member => inside (List.mem_of_mem_take member)
      · rw [List.length_take]
        omega

theorem readlines_pieces {pieces : List CString} (given : ∀ piece ∈ pieces, Piece piece)
    (carries : wire.Carries (pieces.flatten ++ text)) :
    ∃ wire', readlines maxLine pieces.length wire = .ok (pieces.map some) wire' ∧
      wire.Listened wire' text := by
  induction pieces generalizing wire with
  | nil => exact ⟨wire, rfl, carries, rfl, rfl⟩
  | cons piece pieces ih =>
    obtain ⟨here, later⟩ := List.forall_mem_cons.mp given
    rw [List.flatten_cons, List.append_assoc] at carries
    have read : ∃ middle, readline maxLine wire = .ok (some piece) middle ∧
        wire.Listened middle (pieces.flatten ++ text) := by
      rcases here with line | ⟨inside, length⟩
      · exact readline_line line carries
      · rw [readline, ← length]
        exact readlineLoop_full inside carries
    obtain ⟨middle, first, heard⟩ := read
    obtain ⟨wire', rest, listened⟩ := ih later heard.carries
    refine ⟨wire', ?_, heard.trans listened⟩
    rw [List.length_cons, readlines, bind_of_ok first, bind_of_ok rest]
    rfl

/-- The lines read depend on the text only, and not on how it is divided into reads or on
interruptions: no character is lost or read twice, and the call after the last one waits. -/
theorem readlines_text (text : CString) : ∃ (pieces : List CString) (tail : CString),
    text = pieces.flatten ++ tail ∧ (∀ piece ∈ pieces, Piece piece) ∧ '\n' ∉ tail ∧
    tail.length < maxLine - 1 ∧
    ∀ wire, wire.Carries text → ∃ wire' waiting,
      readlines maxLine pieces.length wire = .ok (pieces.map some) wire' ∧
      readline maxLine wire' = .error (.fault "read") waiting := by
  obtain ⟨pieces, tail, rfl, given, inside, short⟩ := exists_pieces text
  refine ⟨pieces, tail, rfl, given, inside, short, ?_⟩
  intro wire carries
  obtain ⟨wire', read, listened⟩ := readlines_pieces given carries
  obtain ⟨waiting, blocked, _⟩ := readline_blocked inside short listened.carries
  exact ⟨wire', waiting, read, blocked⟩

end Pmiu

end Lseb
