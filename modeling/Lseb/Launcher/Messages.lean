import Lseb.Launcher.KeyVals

/-!
# What the parser accepts

A message is a sequence of pairs, each after blanks, up to the end of the line.
The parser accepts exactly the messages, and its table then has their pairs.
-/

namespace Lseb

open Foundation

namespace Pmiu

def endsMessage (c : Char) : Bool := c == '\n' || c == '\x00'

/-- The pairs of a text, up to the end of its first line. -/
inductive Message : CString → List (CString × CString) → Prop where
  | done {blanks rest : CString} (blank : Within notBlank blanks)
      (stop : Delimited endsMessage rest) : Message (blanks ++ rest) []
  | pair {blanks key value rest : CString} {pairs : List (CString × CString)}
      (blank : Within notBlank blanks) (named : key ≠ []) (name : Within endsKey key)
      (word : Within endsValue value) (delimited : Delimited endsValue rest)
      (others : Message rest pairs) :
      Message (blanks ++ (key ++ '=' :: (value ++ rest))) ((key, value) :: pairs)

/-- What the table keeps of a pair. -/
def entry (pair : CString × CString) : Keyval := ⟨pair.1.take (maxKeyLen - 1), pair.2⟩

/-- A pair that the table has room for, with its index. -/
structure Fits (before : ℕ) (pairs : List (CString × CString)) : Prop where
  count : before + pairs.length ≤ tabLen
  values : ∀ pair ∈ pairs, pair.2.length < maxValLen

section Store

variable {key value rest : CString} {tab tab' : List Keyval}

theorem takeWhile_value (word : Within endsValue value) :
    ((value ++ rest).takeWhile (· != '\x00')).take value.length = value := by
  have inside : ∀ c ∈ value, (c != '\x00') = true := by
    intro c member
    have other := word c member
    simp only [endsValue, Bool.or_eq_false_iff] at other
    simpa using other.2
  rw [List.takeWhile_append_of_pos inside, List.take_left]

theorem store_eq_ok (word : Within endsValue value) {u : Unit} :
    store key (value ++ rest) value.length tab = .ok u tab' ↔
      tab.length < tabLen ∧ value.length < maxValLen ∧ tab' = tab ++ [entry (key, value)] := by
  rw [store, estate_get_bind]
  by_cases full : tabLen ≤ tab.length
  · rw [if_pos full]
    simp [Nat.not_lt.mpr full]
  · rw [if_neg full]
    by_cases long : maxValLen ≤ value.length
    · rw [if_pos long]
      simp [Nat.not_lt.mpr long]
    · have copied : (((value ++ rest).takeWhile (· != '\x00')).take (maxValLen - 1)).take
          value.length = value := by
        rw [List.take_take, min_eq_left (by omega), takeWhile_value word]
      rw [if_neg long, strncpy_eq (by decide), strncpy_eq (by decide)]
      dsimp only
      rw [copied]
      constructor
      · rintro ⟨⟩
        exact ⟨by omega, by omega, rfl⟩
      · rintro ⟨_, _, rfl⟩
        rfl

end Store

section Scan

variable {blanks key value rest : CString} {c : Char}

theorem plain_of_endsKey (inside : endsKey c = false) :
    notBlank c = true ∧ c ≠ '=' ∧ ¬(c = '\n' ∨ c = '\x00') := by
  simp only [endsKey, endsValue, Bool.or_eq_false_iff, beq_eq_false_iff_ne] at inside
  obtain ⟨plain, ⟨nonblank, line⟩, null⟩ := inside
  exact ⟨bne_iff_ne.mpr nonblank, plain, not_or.mpr ⟨line, null⟩⟩

theorem parseLoop_done (blank : Within notBlank blanks) (stop : Delimited endsMessage rest) :
    parseLoop (blanks ++ rest) = pure 0 := by
  have after : Delimited notBlank rest := by
    intro c first
    have last := stop c first
    simp only [endsMessage, Bool.or_eq_true, beq_iff_eq] at last
    rcases last with rfl | rfl <;> decide
  have dropped := dropWhile_word blank after
  rw [parseLoop]
  split
  · rfl
  · rename_i c _ found
    rw [dropped] at found
    subst found
    have last := delimited_cons.mp stop
    simp only [endsMessage, Bool.or_eq_true, beq_iff_eq] at last
    rw [if_neg (by rcases last with rfl | rfl <;> decide), if_pos last]

/-- A key that is not followed by `=`, or a missing one, is refused. -/
theorem parseLoop_refused (blank : Within notBlank blanks) (name : Within endsKey key)
    (delimited : Delimited endsKey rest) (bare : key = [] → ∃ after, rest = '=' :: after)
    (other : key ≠ [] → ∀ after, rest ≠ '=' :: after) :
    parseLoop (blanks ++ (key ++ rest)) = pure (-1) := by
  cases key with
  | nil =>
    obtain ⟨after, rfl⟩ := bare rfl
    have dropped := @dropWhile_word _ _ _ ('=' :: after) blank (by simp [notBlank])
    rw [parseLoop]
    split
    · rename_i found
      rw [List.nil_append, dropped] at found
      cases found
    · rename_i c _ found
      rw [List.nil_append, dropped] at found
      cases found
      rfl
  | cons k key =>
    obtain ⟨nonblank, named, going⟩ := plain_of_endsKey (name k List.mem_cons_self)
    have dropped := @dropWhile_word _ _ _ (k :: key ++ rest) blank (by simpa using nonblank)
    rw [parseLoop]
    split
    · rename_i found
      rw [dropped] at found
      cases found
    · rename_i c tail found
      rw [dropped, List.cons_append] at found
      cases found
      rw [if_neg named, if_neg going]
      dsimp only
      split
      · rename_i valstart found
        have ended := dropWhile_word name delimited
        rw [List.cons_append, found] at ended
        exact absurd ended.symm (other (List.cons_ne_nil _ _) valstart)
      · rfl

/-- A pair is stored, and the rest is parsed. -/
theorem parseLoop_pair (blank : Within notBlank blanks) (named : key ≠ [])
    (name : Within endsKey key) (word : Within endsValue value)
    (delimited : Delimited endsValue rest) :
    parseLoop (blanks ++ (key ++ '=' :: (value ++ rest))) =
      (store key (value ++ rest) value.length >>= fun _ => parseLoop rest) := by
  obtain ⟨k, key, rfl⟩ := List.exists_cons_of_ne_nil named
  obtain ⟨nonblank, plain, going⟩ := plain_of_endsKey (name k List.mem_cons_self)
  have dropped := @dropWhile_word _ _ _ (k :: key ++ '=' :: (value ++ rest)) blank
    (by simpa using nonblank)
  have equals : Delimited endsKey ('=' :: (value ++ rest)) := by simp [endsKey]
  have keyEnd := dropWhile_word name equals
  have keyWord := takeWhile_word name equals
  rw [parseLoop]
  split
  · rename_i found
    rw [dropped] at found
    cases found
  · rename_i c tail found
    rw [dropped, List.cons_append] at found
    cases found
    rw [if_neg plain, if_neg going]
    dsimp only
    split
    · rename_i valstart found
      rw [List.cons_append] at keyEnd keyWord
      rw [keyEnd] at found
      cases found
      rw [keyWord, takeWhile_word word delimited]
      congr 1
      funext _
      have valueEnd := dropWhile_word word delimited
      split
      · rename_i next found
        rw [valueEnd] at found
        rw [found]
      · rename_i other
        rw [valueEnd] at other
        have stop : Delimited endsMessage rest := by
          intro c first
          have last := delimited c first
          obtain ⟨tail, rfl⟩ := List.head?_eq_some_iff.mp first
          simp only [endsValue, Bool.or_eq_true, beq_iff_eq] at last
          rcases last with (rfl | rfl) | rfl
          · exact absurd rfl (other tail)
          · rfl
          · rfl
        exact (parseLoop_done within_nil stop).symm
    · rename_i other
      rw [List.cons_append] at keyEnd
      exact absurd keyEnd (other _)

end Scan

/-- Every text is at its end, begins with a pair, or is refused. -/
theorem scan_cases (p : CString) :
    (∃ blanks rest, p = blanks ++ rest ∧ Within notBlank blanks ∧ Delimited endsMessage rest) ∨
    (∃ blanks key value rest, p = blanks ++ (key ++ '=' :: (value ++ rest)) ∧
      Within notBlank blanks ∧ key ≠ [] ∧ Within endsKey key ∧ Within endsValue value ∧
      Delimited endsValue rest) ∨
    parseLoop p = pure (-1) := by
  obtain ⟨blanks, rest, rfl, blank, after⟩ := exists_word notBlank p
  by_cases stop : Delimited endsMessage rest
  · exact .inl ⟨blanks, rest, rfl, blank, stop⟩
  · obtain ⟨key, tail, rfl, name, delimited⟩ := exists_word endsKey rest
    by_cases equals : ∃ valstart, tail = '=' :: valstart
    · obtain ⟨valstart, rfl⟩ := equals
      by_cases named : key = []
      · subst named
        exact .inr (.inr (parseLoop_refused blank name delimited (fun _ => ⟨valstart, rfl⟩)
          fun other => absurd rfl other))
      · obtain ⟨value, rest, rfl, word, ended⟩ := exists_word endsValue valstart
        exact .inr (.inl ⟨blanks, key, value, rest, rfl, blank, named, name, word, ended⟩)
    · refine .inr (.inr (parseLoop_refused blank name delimited ?_ ?_))
      · rintro rfl
        rw [List.nil_append] at after stop
        exfalso
        apply stop
        intro c first
        have here := delimited c first
        have nonblank := after c first
        obtain ⟨rest, rfl⟩ := List.head?_eq_some_iff.mp first
        simp only [endsKey, endsValue, Bool.or_eq_true, beq_iff_eq] at here
        simp only [notBlank, bne_iff_ne] at nonblank
        rcases here with rfl | (blank | rfl) | rfl
        · exact absurd ⟨rest, rfl⟩ equals
        · exact absurd blank nonblank
        · rfl
        · rfl
      · exact fun _ valstart same => equals ⟨valstart, same⟩

section Parse

variable {p st : CString} {pairs : List (CString × CString)} {tab tab' : List Keyval}

theorem fits_cons {before : ℕ} {pair : CString × CString} :
    Fits before (pair :: pairs) ↔ pair.2.length < maxValLen ∧ Fits (before + 1) pairs := by
  constructor
  · rintro ⟨count, values⟩
    obtain ⟨short, values⟩ := List.forall_mem_cons.mp values
    rw [List.length_cons] at count
    exact ⟨short, by omega, values⟩
  · rintro ⟨short, count, values⟩
    exact ⟨by rw [List.length_cons]; omega, List.forall_mem_cons.mpr ⟨short, values⟩⟩

/-- The pairs of a message are added to the table, as long as there is room. -/
theorem parseLoop_message (message : Message p pairs) (room : tab.length ≤ tabLen) :
    parseLoop p tab = .ok 0 tab' ↔ Fits tab.length pairs ∧ tab' = tab ++ pairs.map entry := by
  induction message generalizing tab with
  | done blank stop =>
    rw [parseLoop_done blank stop]
    constructor
    · rintro ⟨⟩
      exact ⟨⟨room, by simp⟩, by simp⟩
    · rintro ⟨_, rfl⟩
      simp
  | @pair blanks key value rest pairs blank named name word delimited _ ih =>
    rw [parseLoop_pair blank named name word delimited, estate_bind_eq_ok, fits_cons]
    constructor
    · rintro ⟨_, middle, stored, parsed⟩
      obtain ⟨below, short, rfl⟩ := (store_eq_ok word).mp stored
      have length : (tab ++ [entry (key, value)]).length = tab.length + 1 := by simp
      obtain ⟨fits, rfl⟩ := (ih (by omega)).mp parsed
      rw [length] at fits
      exact ⟨⟨short, fits⟩, by simp⟩
    · rintro ⟨⟨short, fits⟩, rfl⟩
      have below : tab.length < tabLen := by
        have := fits.count
        omega
      refine ⟨(), _, (store_eq_ok word).mpr ⟨below, short, rfl⟩, ?_⟩
      have length : (tab ++ [entry (key, value)]).length = tab.length + 1 := by simp
      refine (ih (by omega)).mpr ⟨by rw [length]; exact fits, by simp⟩

/-- What is accepted is a message: by induction on the length of the text. -/
theorem exists_message (parsed : parseLoop p tab = .ok 0 tab') : ∃ pairs, Message p pairs := by
  induction length : p.length using Nat.strongRecOn generalizing p tab with
  | _ n ih =>
    subst length
    rcases scan_cases p with ⟨blanks, rest, rfl, blank, stop⟩ |
      ⟨blanks, key, value, rest, rfl, blank, named, name, word, delimited⟩ | refused
    · exact ⟨[], .done blank stop⟩
    · rw [parseLoop_pair blank named name word delimited, estate_bind_eq_ok] at parsed
      obtain ⟨_, middle, _, parsed⟩ := parsed
      have shorter : rest.length < (blanks ++ (key ++ '=' :: (value ++ rest))).length := by
        simp only [List.length_append, List.length_cons]
        omega
      obtain ⟨pairs, message⟩ := ih rest.length shorter parsed rfl
      exact ⟨(key, value) :: pairs, .pair blank named name word delimited message⟩
    · rw [refused] at parsed
      cases parsed

/-- The parser accepts the messages of at most 64 pairs with values that fit, and nothing else,
and leaves their pairs in the table. -/
theorem parseKeyvals_accepts : parseKeyvals st tab = .ok 0 tab' ↔
    ∃ pairs, Message st pairs ∧ Fits 0 pairs ∧ tab' = pairs.map entry := by
  have started : parseKeyvals st tab = parseLoop st [] := rfl
  rw [started]
  constructor
  · intro parsed
    obtain ⟨pairs, message⟩ := exists_message parsed
    exact ⟨pairs, message, (parseLoop_message message (Nat.zero_le _)).mp parsed⟩
  · rintro ⟨pairs, message, fits, rfl⟩
    exact (parseLoop_message message (Nat.zero_le _)).mpr ⟨fits, rfl⟩

end Parse

/-- A pair that survives a message unchanged. -/
structure Proper (pair : CString × CString) : Prop where
  named : pair.1 ≠ []
  name : Within endsKey pair.1
  word : Within endsValue pair.2
  short : pair.1.length < maxKeyLen
  fits : pair.2.length < maxValLen

/-- A name that is one word of a message. -/
structure Name (name : CString) : Prop where
  named : name ≠ []
  word : Within endsKey name
  short : name.length < maxKeyLen

instance (name : CString) : Decidable (Name name) :=
  decidable_of_iff (name ≠ [] ∧ Within endsKey name ∧ name.length < maxKeyLen)
    ⟨fun ⟨named, word, short⟩ => ⟨named, word, short⟩,
      fun ⟨named, word, short⟩ => ⟨named, word, short⟩⟩

theorem Name.proper {name value : CString} (is : Name name) (word : Within endsValue value)
    (fits : value.length < maxValLen) : Proper (name, value) :=
  ⟨is.named, is.word, word, is.short, fits⟩

instance (pair : CString × CString) : Decidable (Proper pair) :=
  decidable_of_iff (Name pair.1 ∧ Within endsValue pair.2 ∧ pair.2.length < maxValLen)
    ⟨fun ⟨⟨named, name, short⟩, word, fits⟩ => ⟨named, name, word, short, fits⟩,
      fun ⟨named, name, word, short, fits⟩ => ⟨⟨named, name, short⟩, word, fits⟩⟩

/-- The line with the given pairs. -/
def render : List (CString × CString) → CString
  | [] => ['\n']
  | [pair] => pair.1 ++ '=' :: (pair.2 ++ ['\n'])
  | pair :: next :: pairs => pair.1 ++ '=' :: (pair.2 ++ ' ' :: render (next :: pairs))

section Render

variable {pairs : List (CString × CString)} {key value valstr : CString} {n : ℕ}
  {tab : List Keyval}

theorem Message.blank {text : CString} (message : Message text pairs) :
    Message (' ' :: text) pairs := by
  have added : ∀ {blanks}, Within notBlank blanks → Within notBlank (' ' :: blanks) :=
    fun blank => List.forall_mem_cons.mpr ⟨rfl, blank⟩
  cases message with
  | done blank stop => exact .done (added blank) stop
  | pair blank named name word delimited others =>
    exact .pair (added blank) named name word delimited others

theorem render_message (proper : ∀ pair ∈ pairs, Proper pair) : Message (render pairs) pairs := by
  induction pairs using render.induct with
  | case1 => exact .done within_nil (delimited_cons.mpr rfl)
  | case2 pair =>
    obtain ⟨named, name, word, _, _⟩ := proper pair (List.mem_singleton_self _)
    exact .pair within_nil named name word (delimited_cons.mpr rfl)
      (.done within_nil (delimited_cons.mpr rfl))
  | case3 pair next pairs ih =>
    obtain ⟨⟨named, name, word, _, _⟩, others⟩ := List.forall_mem_cons.mp proper
    exact .pair within_nil named name word (delimited_cons.mpr rfl) (ih others).blank

/-- A rendered line is parsed into its pairs. -/
theorem parseKeyvals_render (proper : ∀ pair ∈ pairs, Proper pair)
    (count : pairs.length ≤ tabLen) :
    parseKeyvals (render pairs) tab = .ok 0 (pairs.map fun pair => ⟨pair.1, pair.2⟩) := by
  have fits : Fits 0 pairs := ⟨by omega, fun pair member => (proper pair member).fits⟩
  have started : parseKeyvals (render pairs) tab = parseLoop (render pairs) [] := rfl
  rw [started]
  refine (parseLoop_message (render_message proper) (Nat.zero_le _)).mpr ⟨fits, ?_⟩
  apply List.map_congr_left
  intro pair member
  have short := (proper pair member).short
  rw [entry, List.take_of_length_le (by omega)]

/-- The value of a key is that of the first pair with the key. -/
theorem getval_of_lookup (found : pairs.lookup key = some value) (short : value.length < n) :
    getval (pairs.map fun pair => ⟨pair.1, pair.2⟩) key valstr n = (value, true) := by
  induction pairs with
  | nil => cases found
  | cons pair pairs ih =>
    rw [getval, List.map_cons, List.find?_cons]
    by_cases same : pair.1 = key
    · subst same
      rw [List.lookup_cons_self] at found
      obtain rfl := Option.some.inj found
      simp only [beq_self_eq_true, strncpy_eq (Nat.zero_lt_of_lt short), if_pos short]
      rw [List.take_of_length_le (by omega)]
    · have differs : (pair.1 == key) = false := beq_false_of_ne same
      have other : (key == pair.1) = false := beq_false_of_ne (Ne.symm same)
      rw [List.lookup_cons, other] at found
      rw [differs]
      exact ih found

/-- A round trip: each value of a rendered line is found under its key. -/
theorem render_getval (proper : ∀ pair ∈ pairs, Proper pair) (count : pairs.length ≤ tabLen) :
    ∃ tab', parseKeyvals (render pairs) tab = .ok 0 tab' ∧
      ∀ key value, pairs.lookup key = some value →
        getval tab' key valstr maxLine = (value, true) := by
  refine ⟨_, parseKeyvals_render proper count, ?_⟩
  intro key value found
  refine getval_of_lookup found ?_
  obtain ⟨before, after, rfl, _⟩ := List.lookup_eq_some_iff.mp found
  exact (proper (key, value) (by simp)).fits

/-- An answer to a request for a value. -/
theorem render_getval_answer : ∃ tab', parseKeyvals (render [("cmd".toList, "get_result".toList),
      ("rc".toList, "0".toList), ("value".toList, "10.0.0.1".toList)]) [] = .ok 0 tab' ∧
    getval tab' "value".toList [] maxLine = ("10.0.0.1".toList, true) := by
  obtain ⟨tab', parsed, values⟩ := @render_getval [("cmd".toList, "get_result".toList),
    ("rc".toList, "0".toList), ("value".toList, "10.0.0.1".toList)] [] [] (by decide) (by decide)
  exact ⟨tab', parsed, values _ _ rfl⟩

end Render

end Pmiu

end Lseb
