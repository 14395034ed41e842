import Lseb.Common.Exception
import Lseb.Foundation.Stateful
import Lseb.Foundation.Words

/-!
# The messages of the process manager

A message is a line of `key=value` pairs. The parser keeps them in a table of
64 entries, without a check of its index; keys are cut at 31 characters. What
it prints about a malformed line is left out.
-/

namespace Lseb

open Foundation

/-- The characters of a C string, without its null. -/
abbrev CString := List Char

namespace Pmiu

def maxKeyLen : ℕ := 32
def maxValLen : ℕ := 1024
def maxLine : ℕ := 1024

/-- The length of `PMIU_keyval_tab`. -/
def tabLen : ℕ := 64

/-- The loop of `MPIU_Strncpy`: what it copies, and the last value of its counter. -/
def copyLoop : CString → ℤ → CString × ℤ
  | [], i => ([], i)
  | c :: src, i =>
    if i > 0 then
      let (copied, last) := copyLoop src (i - 1)
      (c :: copied, last)
    else ([], i - 1)

/-- `MPIU_Strncpy`: the destination afterwards, and the code returned. -/
def strncpy (dest src : CString) (n : ℕ) : CString × ℤ :=
  if n = 0 then (dest, 0)
  else
    let (copied, i) := copyLoop src n
    if i > 0 then (copied, 0) else (copied.take (n - 1), 1)

structure Keyval where
  key : CString
  value : CString
  deriving DecidableEq, Repr

/-- Computations on `PMIU_keyval_tab`, up to its index. -/
abbrev TabM := EStateM Error (List Keyval)

def notBlank (c : Char) : Bool := c != ' '

def endsValue (c : Char) : Bool := c == ' ' || c == '\n' || c == '\x00'

def endsKey (c : Char) : Bool := c == '=' || endsValue c

/-- Store a key, and the first `offset` characters from `valstart` on. -/
def store (key valstart : CString) (offset : ℕ) : TabM Unit := do
  let tab ← get
  if tabLen ≤ tab.length then
    throw (.fault "PMIU_keyval_tab[PMIU_keyval_tab_idx]")
  else if maxValLen ≤ offset then
    throw (.fault "PMIU_keyval_tab[PMIU_keyval_tab_idx].value[offset]")
  else
    let copied := (strncpy [] (valstart.takeWhile (· != '\x00')) maxValLen).1
    set (tab ++ [⟨(strncpy [] key maxKeyLen).1, copied.take offset⟩])

/-- The loop of `PMIU_parse_keyvals`, from the position `p` on. -/
def parseLoop (p : CString) : TabM ℤ :=
  match _nonblank : p.dropWhile (!notBlank ·) with
  | [] => pure 0
  | c :: rest =>
    if c = '=' then pure (-1)
    else if c = '\n' ∨ c = '\x00' then pure 0
    else
      let keystart := c :: rest
      match keyEnd : keystart.dropWhile (!endsKey ·) with
      | '=' :: valstart => do
        store (keystart.takeWhile (!endsKey ·)) valstart
          (valstart.takeWhile (!endsValue ·)).length
        match _valueEnd : valstart.dropWhile (!endsValue ·) with
        | ' ' :: next => parseLoop (' ' :: next)
        | _ => pure 0
      | _ => pure (-1)
termination_by p.length
decreasing_by
  have first := List.length_dropWhile_le (!notBlank ·) p
  have second := List.length_dropWhile_le (!endsKey ·) (c :: rest)
  have third := List.length_dropWhile_le (!endsValue ·) valstart
  rw [_nonblank] at first
  rw [keyEnd] at second
  rw [_valueEnd] at third
  simp only [List.length_cons] at *
  omega

/-- `PMIU_parse_keyvals`. -/
def parseKeyvals (st : CString) : TabM ℤ := do
  set ([] : List Keyval)
  parseLoop st

/-- `PMIU_getval`: `valstr` afterwards, and whether it is returned rather than `NULL`. -/
def getval (tab : List Keyval) (keystr valstr : CString) (vallen : ℕ) : CString × Bool :=
  match tab.find? fun entry => entry.key == keystr with
  | some entry =>
    let (copied, rc) := strncpy valstr entry.value vallen
    (copied, rc == 0)
  | none => ([], false)

section Strncpy

variable {src dest : CString} {n : ℕ}

theorem copyLoop_eq : copyLoop src n =
    (src.take n, if src.length ≤ n then (n : ℤ) - src.length else -1) := by
  induction src generalizing n with
  | nil => simp [copyLoop]
  | cons c src ih =>
    cases n with
    | zero => simp [copyLoop]
    | succ n =>
      have rest := @ih n
      have positive : ((n + 1 : ℕ) : ℤ) > 0 := by omega
      rw [copyLoop, if_pos positive, show ((n + 1 : ℕ) : ℤ) - 1 = n by omega, rest]
      simp only [List.take_succ_cons, List.length_cons, Prod.mk.injEq, true_and]
      split_ifs <;> omega

/-- What fits with its null is copied whole, and the rest is cut. -/
theorem strncpy_eq (positive : 0 < n) : strncpy dest src n =
    (src.take (n - 1), if src.length < n then 0 else 1) := by
  rw [strncpy, if_neg positive.ne', copyLoop_eq]
  dsimp only
  by_cases short : src.length < n
  · rw [if_pos short.le, if_pos (by omega), if_pos short, List.take_of_length_le short.le,
      List.take_of_length_le (by omega)]
  · have stopped : ¬(if src.length ≤ n then (n : ℤ) - src.length else -1) > 0 := by
      split_ifs <;> omega
    rw [if_neg stopped, if_neg short, List.take_take, min_eq_left (by omega)]

end Strncpy

end Pmiu

end Lseb
